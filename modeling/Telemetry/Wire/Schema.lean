/-!
# The schema of telemetry messages

Every message of the telemetry protocol is described by the list of its fields: the number of the
field in the binary form, its name in the JSON form, its type, and how often it occurs. The fields
are listed in the order in which they are written, which is that of their numbers, except that the
members of a choice stand where the one with the smallest number would.
-/

namespace Telemetry.Wire

/-- The types of single values. -/
inductive ScalarType
  | string
  | bytes
  | bool
  | uint32
  | enum
  | sint32
  | uint64
  | int64
  | fixed32
  | fixed64
  | sfixed64
  | double
deriving DecidableEq, Repr

/-- The types of messages. -/
inductive MessageType
  | traceRequest
  | metricRequest
  | logRequest
  | resourceSpans
  | resourceMetrics
  | resourceLogs
  | scopeSpans
  | scopeMetrics
  | scopeLogs
  | resource
  | entityRef
  | scope
  | keyValue
  | anyValue
  | arrayValue
  | keyValueList
  | span
  | spanEvent
  | spanLink
  | spanStatus
  | logRecord
  | metric
  | gauge
  | sum
  | histogram
  | exponentialHistogram
  | summary
  | numberPoint
  | histogramPoint
  | exponentialPoint
  | summaryPoint
  | buckets
  | quantile
  | exemplar
deriving DecidableEq, Repr

/-- The type of a field. -/
inductive FieldType
  | scalar (type : ScalarType)
  | message (type : MessageType)
deriving DecidableEq, Repr

/-- How often a field occurs. -/
inductive Presence
  /-- Always once; a default value is not written. -/
  | plain
  /-- At most once. -/
  | optional
  /-- Any number of times. -/
  | repeated
  /-- At most once, and then none of the other members of the message's choice. -/
  | choice
deriving DecidableEq, Repr

/-- How the JSON form writes a value of a field. -/
inductive JsonForm
  /-- As the JSON value of its type. -/
  | direct
  /-- Bytes as hexadecimal digits. -/
  | hex
  /-- An integer as a text of decimal digits. -/
  | decimal
deriving DecidableEq, Repr

/-- A field of a message. -/
structure Field where
  /-- The number in the binary form. -/
  number : Nat
  /-- The name in the JSON form. -/
  name : String
  /-- The type. -/
  type : FieldType
  /-- How often the field occurs. -/
  presence : Presence
  /-- How the JSON form writes it. -/
  form : JsonForm
deriving DecidableEq, Repr

/-- A single value that is always there. -/
def Field.plain (number : Nat) (name : String) (type : ScalarType) : Field :=
  ⟨number, name, .scalar type, .plain, .direct⟩

/-- Bytes that identify something. -/
def Field.identifier (number : Nat) (name : String) : Field :=
  ⟨number, name, .scalar .bytes, .plain, .hex⟩

/-- A time whose JSON form is a text. -/
def Field.time (number : Nat) (name : String) : Field :=
  ⟨number, name, .scalar .fixed64, .plain, .decimal⟩

/-- A single value that may be absent. -/
def Field.optional (number : Nat) (name : String) (type : ScalarType) : Field :=
  ⟨number, name, .scalar type, .optional, .direct⟩

/-- Single values in any number. -/
def Field.values (number : Nat) (name : String) (type : ScalarType) : Field :=
  ⟨number, name, .scalar type, .repeated, .direct⟩

/-- A message that may be absent. -/
def Field.part (number : Nat) (name : String) (type : MessageType) : Field :=
  ⟨number, name, .message type, .optional, .direct⟩

/-- Messages in any number. -/
def Field.parts (number : Nat) (name : String) (type : MessageType) : Field :=
  ⟨number, name, .message type, .repeated, .direct⟩

/-- A single value of a choice. -/
def Field.choice (number : Nat) (name : String) (type : ScalarType) : Field :=
  ⟨number, name, .scalar type, .choice, .direct⟩

/-- A message of a choice. -/
def Field.choicePart (number : Nat) (name : String) (type : MessageType) : Field :=
  ⟨number, name, .message type, .choice, .direct⟩

/-- The attributes of something. -/
def Field.attributes (number : Nat) : Field := .parts number "attributes" .keyValue

/-- The number of attributes that were left out. -/
def Field.dropped (number : Nat) : Field := .plain number "droppedAttributesCount" .uint32

/-- The fields of a group of items of one resource or scope. -/
def groupFields (head : Field) (items : Field) : List Field :=
  [head, items, .plain 3 "schemaUrl" .string]

/-- The fields of a message, in the order they are written. -/
def MessageType.fields : MessageType → List Field
  | traceRequest => [.parts 1 "resourceSpans" resourceSpans]
  | metricRequest => [.parts 1 "resourceMetrics" resourceMetrics]
  | logRequest => [.parts 1 "resourceLogs" resourceLogs]
  | resourceSpans =>
    groupFields (.part 1 "resource" resource) (.parts 2 "scopeSpans" scopeSpans)
  | resourceMetrics =>
    groupFields (.part 1 "resource" resource) (.parts 2 "scopeMetrics" scopeMetrics)
  | resourceLogs => groupFields (.part 1 "resource" resource) (.parts 2 "scopeLogs" scopeLogs)
  | scopeSpans => groupFields (.part 1 "scope" scope) (.parts 2 "spans" span)
  | scopeMetrics => groupFields (.part 1 "scope" scope) (.parts 2 "metrics" metric)
  | scopeLogs => groupFields (.part 1 "scope" scope) (.parts 2 "logRecords" logRecord)
  | resource => [.attributes 1, .dropped 2, .parts 3 "entityRefs" entityRef]
  | entityRef =>
    [.plain 1 "schemaUrl" .string, .plain 2 "type" .string, .values 3 "idKeys" .string,
     .values 4 "descriptionKeys" .string]
  | scope =>
    [.plain 1 "name" .string, .plain 2 "version" .string, .attributes 3, .dropped 4]
  | keyValue => [.plain 1 "key" .string, .part 2 "value" anyValue]
  | anyValue =>
    [.choice 1 "stringValue" .string, .choice 2 "boolValue" .bool, .choice 3 "intValue" .int64,
     .choice 4 "doubleValue" .double, .choicePart 5 "arrayValue" arrayValue,
     .choicePart 6 "kvlistValue" keyValueList, .choice 7 "bytesValue" .bytes]
  | arrayValue => [.parts 1 "values" anyValue]
  | keyValueList => [.parts 1 "values" keyValue]
  | span =>
    [.identifier 1 "traceId", .identifier 2 "spanId", .plain 3 "traceState" .string,
     .identifier 4 "parentSpanId", .plain 5 "name" .string, .plain 6 "kind" .enum,
     .time 7 "startTimeUnixNano", .time 8 "endTimeUnixNano", .attributes 9, .dropped 10,
     .parts 11 "events" spanEvent, .plain 12 "droppedEventsCount" .uint32,
     .parts 13 "links" spanLink, .plain 14 "droppedLinksCount" .uint32,
     .part 15 "status" spanStatus, .plain 16 "flags" .fixed32]
  | spanEvent =>
    [.time 1 "timeUnixNano", .plain 2 "name" .string, .attributes 3, .dropped 4]
  | spanLink =>
    [.identifier 1 "traceId", .identifier 2 "spanId", .plain 3 "traceState" .string,
     .attributes 4, .dropped 5, .plain 6 "flags" .fixed32]
  | spanStatus => [.plain 2 "message" .string, .plain 3 "code" .enum]
  | logRecord =>
    [.time 1 "timeUnixNano", .plain 2 "severityNumber" .enum, .plain 3 "severityText" .string,
     .part 5 "body" anyValue, .attributes 6, .dropped 7, .plain 8 "flags" .fixed32,
     .identifier 9 "traceId", .identifier 10 "spanId", .time 11 "observedTimeUnixNano",
     .plain 12 "eventName" .string]
  | metric =>
    [.plain 1 "name" .string, .plain 2 "description" .string, .plain 3 "unit" .string,
     .choicePart 5 "gauge" gauge, .choicePart 7 "sum" sum, .choicePart 9 "histogram" histogram,
     .choicePart 10 "exponentialHistogram" exponentialHistogram,
     .choicePart 11 "summary" summary, .parts 12 "metadata" keyValue]
  | gauge => [.parts 1 "dataPoints" numberPoint]
  | sum =>
    [.parts 1 "dataPoints" numberPoint, .plain 2 "aggregationTemporality" .enum,
     .plain 3 "isMonotonic" .bool]
  | histogram =>
    [.parts 1 "dataPoints" histogramPoint, .plain 2 "aggregationTemporality" .enum]
  | exponentialHistogram =>
    [.parts 1 "dataPoints" exponentialPoint, .plain 2 "aggregationTemporality" .enum]
  | summary => [.parts 1 "dataPoints" summaryPoint]
  | numberPoint =>
    [.time 2 "startTimeUnixNano", .time 3 "timeUnixNano", .choice 4 "asDouble" .double,
     .choice 6 "asInt" .sfixed64, .parts 5 "exemplars" exemplar, .attributes 7,
     .plain 8 "flags" .uint32]
  | histogramPoint =>
    [.time 2 "startTimeUnixNano", .time 3 "timeUnixNano", .plain 4 "count" .fixed64,
     .optional 5 "sum" .double, .values 6 "bucketCounts" .fixed64,
     .values 7 "explicitBounds" .double, .parts 8 "exemplars" exemplar, .attributes 9,
     .plain 10 "flags" .uint32, .optional 11 "min" .double, .optional 12 "max" .double]
  | exponentialPoint =>
    [.attributes 1, .plain 2 "startTimeUnixNano" .fixed64, .plain 3 "timeUnixNano" .fixed64,
     .plain 4 "count" .fixed64, .optional 5 "sum" .double, .plain 6 "scale" .sint32,
     .plain 7 "zeroCount" .fixed64, .part 8 "positive" buckets, .part 9 "negative" buckets,
     .plain 10 "flags" .uint32, .parts 11 "exemplars" exemplar, .optional 12 "min" .double,
     .optional 13 "max" .double, .plain 14 "zeroThreshold" .double]
  | summaryPoint =>
    [.plain 2 "startTimeUnixNano" .fixed64, .plain 3 "timeUnixNano" .fixed64,
     .plain 4 "count" .fixed64, .plain 5 "sum" .double, .parts 6 "quantileValues" quantile,
     .attributes 7, .plain 8 "flags" .uint32]
  | buckets => [.plain 1 "offset" .sint32, .values 2 "bucketCounts" .uint64]
  | quantile => [.plain 1 "quantile" .double, .plain 2 "value" .double]
  | exemplar =>
    [.plain 2 "timeUnixNano" .fixed64, .choice 3 "asDouble" .double, .choice 6 "asInt" .sfixed64,
     .identifier 4 "spanId", .identifier 5 "traceId", .parts 7 "filteredAttributes" keyValue]

end Telemetry.Wire
