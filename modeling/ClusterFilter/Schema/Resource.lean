import ClusterFilter.Schema.Basic

/-!
# ClusterFilter — the catalogue of resources

The four filterable resources of the cluster with their schemas, and the selectors that name them.
-/

namespace ClusterFilter

/-- Filterable resources. -/
inductive Resource where
  | session
  | task
  | result
  | partition
  deriving DecidableEq, Repr

namespace Resource

/-- All resources. -/
def all : List Resource :=
  [session, task, result, partition]

/-- The name of the resource. -/
def name : Resource → String
  | session => "Session"
  | task => "Task"
  | result => "Result"
  | partition => "Partition"

/-- The selector without white space at its ends, in lower case and without one final `s`. -/
def selectorStem (selector : String) : List Char :=
  let normal := Text.lower (Text.trim selector.toList)
  if normal.getLast? = some 's' then normal.dropLast else normal

/-- The resource that a selector names: singular or plural, in any letter case, white space
around it allowed. -/
def ofSelector? (selector : String) : Option Resource :=
  all.find? fun r => Text.lower r.name.toList == selectorStem selector

end Resource

-- ---------------------------------------------------------------------------
-- Fields and vocabularies
-- ---------------------------------------------------------------------------

namespace Catalogue

/-- A field that holds one value. -/
def plain (kind : FieldKind) (name : String) : Field :=
  ⟨name, kind, false⟩

/-- A field that holds a map of strings. -/
def mapField (name : String) : Field :=
  ⟨name, .value .string, true⟩

def sessionFields : List Field :=
  [plain ValueKind.string "session_id",
    plain ValueKind.status "status",
    plain ValueKind.boolean "client_submission",
    plain ValueKind.boolean "worker_submission",
    plain .array "partition_ids",
    mapField "options",
    plain ValueKind.date "created_at",
    plain ValueKind.date "cancelled_at",
    plain ValueKind.date "closed_at",
    plain ValueKind.date "purged_at",
    plain ValueKind.date "deleted_at",
    plain ValueKind.duration "duration",
    plain .notApplicable "options_raw"]

def taskFields : List Field :=
  [plain ValueKind.string "id",
    plain ValueKind.string "session_id",
    plain ValueKind.string "owner_pod_id",
    plain ValueKind.string "initial_task_id",
    plain ValueKind.string "payload_id",
    plain ValueKind.string "created_by",
    plain ValueKind.string "pod_hostname",
    plain ValueKind.status "status",
    plain ValueKind.date "created_at",
    plain ValueKind.date "submitted_at",
    plain ValueKind.date "received_at",
    plain ValueKind.date "acquired_at",
    plain ValueKind.date "fetched_at",
    plain ValueKind.date "started_at",
    plain ValueKind.date "processed_at",
    plain ValueKind.date "ended_at",
    plain ValueKind.date "pod_ttl",
    plain ValueKind.duration "creation_to_end_duration",
    plain ValueKind.duration "processing_to_end_duration",
    plain ValueKind.duration "received_to_end_duration",
    plain .array "parent_task_ids",
    plain .array "data_dependencies",
    plain .array "expected_output_ids",
    plain .array "retry_of_ids",
    plain ValueKind.number "count_data_dependencies",
    plain ValueKind.number "count_expected_output_ids",
    plain ValueKind.number "count_parent_task_ids",
    plain ValueKind.number "count_retry_of_ids",
    mapField "options",
    plain .notApplicable "output",
    plain .unknown "status_message"]

def resultFields : List Field :=
  [plain ValueKind.string "result_id",
    plain ValueKind.string "session_id",
    plain ValueKind.string "name",
    plain ValueKind.string "owner_task_id",
    plain ValueKind.string "created_by",
    plain ValueKind.status "status",
    plain ValueKind.date "created_at",
    plain ValueKind.date "completed_at",
    plain ValueKind.number "size",
    plain ValueKind.boolean "manual_deletion",
    plain .notApplicable "opaque_id"]

def partitionFields : List Field :=
  [plain ValueKind.string "id",
    plain .array "parent_partition_ids",
    plain ValueKind.number "pod_reserved",
    plain ValueKind.number "pod_max",
    plain ValueKind.number "preemption_percentage",
    plain ValueKind.number "priority",
    plain .unknown "pod_configuration"]

def sessionStatuses : List Status :=
  [⟨"UNSPECIFIED", 0⟩, ⟨"RUNNING", 1⟩, ⟨"CANCELLED", 2⟩, ⟨"PAUSED", 3⟩, ⟨"CLOSED", 4⟩,
    ⟨"PURGED", 5⟩, ⟨"DELETED", 6⟩]

def taskStatuses : List Status :=
  [⟨"UNSPECIFIED", 0⟩, ⟨"CREATING", 1⟩, ⟨"SUBMITTED", 2⟩, ⟨"DISPATCHED", 3⟩, ⟨"COMPLETED", 4⟩,
    ⟨"ERROR", 5⟩, ⟨"TIMEOUT", 6⟩, ⟨"CANCELLING", 7⟩, ⟨"CANCELLED", 8⟩, ⟨"PROCESSING", 9⟩,
    ⟨"PROCESSED", 10⟩, ⟨"RETRIED", 11⟩, ⟨"PENDING", 12⟩, ⟨"PAUSED", 13⟩]

def resultStatuses : List Status :=
  [⟨"UNSPECIFIED", 0⟩, ⟨"CREATED", 1⟩, ⟨"COMPLETED", 2⟩, ⟨"ABORTED", 3⟩, ⟨"DELETED", 4⟩,
    ⟨"NOTFOUND", 127⟩]

end Catalogue

/-- The schema of each resource. Partitions have no lifecycle, and so no statuses. -/
def Resource.schema : Resource → Schema
  | .session => ⟨Catalogue.sessionFields, some Catalogue.sessionStatuses⟩
  | .task => ⟨Catalogue.taskFields, some Catalogue.taskStatuses⟩
  | .result => ⟨Catalogue.resultFields, some Catalogue.resultStatuses⟩
  | .partition => ⟨Catalogue.partitionFields, none⟩

end ClusterFilter
