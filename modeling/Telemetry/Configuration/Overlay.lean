import Telemetry.Json.Value

/-!
# Overlaying settings on a base

Settings are laid over others: objects are merged key by key, and anything else takes the place of
what is there. The settings a user writes for a component are laid over the defaults of its factory,
and there null keeps what is there; among the sources of a configuration null counts like any other
value.
-/

namespace Telemetry.Json

mutual

/-- Lays a value over a base, given whether null counts as a value. -/
def layOver (nullCounts : Bool) (base : Json) : Json → Json
  | null => if nullCounts then null else base
  | object members =>
    match base with
    | object defaults => .object (layMembersOver nullCounts defaults members)
    | _ => .object members
  | v => v

/-- Lays members over those of a base object; a key the base lacks is taken with its value as it
is. -/
def layMembersOver (nullCounts : Bool) (base : Table String Json) :
    List (String × Json) → Table String Json
  | [] => base
  | (k, v) :: rest =>
    let value := match Table.get? k base with
      | some b => layOver nullCounts b v
      | none => v
    layMembersOver nullCounts (Table.insert k value base) rest

end

/-- Lays a user's settings over defaults. -/
def overlay (base user : Json) : Json := layOver false base user

/-- Lays a user's settings over defaults, if there are any. -/
def overlay? (base : Json) (user : Option Json) : Json := user.elim base (overlay base)

/-- Lays a later source of a configuration over the earlier ones. -/
def merge (earlier later : Json) : Json := layOver true earlier later

end Telemetry.Json
