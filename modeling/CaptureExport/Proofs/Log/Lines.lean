import Mathlib.Data.List.Forall2
import CaptureExport.Log.Logger
import CaptureExport.Proofs.Json.RoundTrip

/-! # Lines of a log

Every enabled record becomes one line, and the line is read back as an object. Its four fixed keys
tell the record's own level, time, message and origin; every other key has the record's last value
for it, or else the last one of the static fields.
-/

namespace CaptureExport.Log

open Json Json.Members

namespace Value

theorem ordered_toJson (v : Value) : v.toJson.Ordered := by
  unfold toJson
  split <;> trivial

end Value

namespace Logger

def built (threshold : Threshold) (fields : List (String × Json)) : Logger :=
  fields.foldl (fun l f => l.withField f.1 f.2) (Logger.default.withThreshold threshold)

def log (l : Logger) (sink : Bytes) (entry : String × Record) : Bytes :=
  if l.enabled entry.2 then sink ++ Utf8.encode (l.line entry.1 entry.2) else sink

def fixedKeys : List String := ["severity", "time", "message", "logger"]

/-- The members of a line carry the record at its time, over the static fields. -/
structure Faithful (fields : List (String × Json)) (entry : String × Record) (m : Members) :
    Prop where
  sorted : m.Sorted
  keys : ∀ key, key ∈ m.keys ↔
    key ∈ fields.map Prod.fst ∨ key ∈ entry.2.fields.map Prod.fst ∨ key ∈ fixedKeys
  severity : m.get? "severity" = some (.str entry.2.level.name)
  time : m.get? "time" = some (.str entry.1)
  message : m.get? "message" = some (.str entry.2.message)
  logger : m.get? "logger" = some (.str entry.2.origin)
  other : ∀ key ∉ fixedKeys,
    m.get? key = ((lastValue key entry.2.fields).map Value.toJson).or (lastValue key fields)

variable {threshold : Threshold} {fields : List (String × Json)} {entry : String × Record}

theorem built_eq (threshold : Threshold) (fields : List (String × Json)) :
    built threshold fields = ⟨threshold, insertAll [] fields⟩ := by
  induction fields using List.reverseRecOn with
  | nil => rfl
  | append_singleton fields f ih =>
    rw [insertAll_concat, built, List.foldl_append]
    exact congrArg (withField f.1 f.2) ih

def membersOf (fields : List (String × Json)) (entry : String × Record) : Members :=
  (entry.2.members (insertAll [] fields)).insert "time" (.str entry.1)

theorem object_built : (built threshold fields).object entry.1 entry.2 =
    .obj (membersOf fields entry) := by
  rw [built_eq, object, membersOf]

theorem faithful_membersOf (fields : List (String × Json)) (entry : String × Record) :
    Faithful fields entry (membersOf fields entry) := by
  have hempty (key : String) : get? key [] = none := rfl
  constructor
  case sorted =>
    exact Sorted.insert (.insertAll (.insertAll (.insertAll List.Pairwise.nil _) _) _)
  case keys =>
    intro key
    simp only [membersOf, Record.members, mem_keys_insert, mem_keys_insertAll, fixedKeys]
    simp [keys]
    tauto
  case severity => simp [membersOf, Record.members, get?_insert, get?_insertAll, lastValue]
  case time => simp [membersOf, get?_insert]
  case message => simp [membersOf, Record.members, get?_insert, get?_insertAll, lastValue]
  case logger => simp [membersOf, Record.members, get?_insert, get?_insertAll, lastValue]
  case other =>
    intro key hkey
    obtain ⟨hseverity, htime, hmessage, hlogger⟩ :
        key ≠ "severity" ∧ key ≠ "time" ∧ key ≠ "message" ∧ key ≠ "logger" := by
      simpa [fixedKeys] using hkey
    have hfixed : lastValue key [("severity", Json.str entry.2.level.name),
        ("message", .str entry.2.message), ("logger", .str entry.2.origin)] = none := by
      simp [lastValue, Ne.symm hseverity, Ne.symm hmessage, Ne.symm hlogger]
    rw [membersOf, get?_insert, if_neg htime, Record.members, get?_insertAll, get?_insertAll,
      get?_insertAll, hfixed, lastValue_map, hempty, Option.none_or, Option.or_none]

theorem ordered_membersOf (h : ∀ f ∈ fields, f.2.Ordered) :
    ∀ p ∈ membersOf fields entry, p.2.Ordered := by
  intro p hp
  rcases mem_insert hp with rfl | hp
  · trivial
  rcases mem_insertAll hp with hp | hp
  · simp only [List.mem_cons, List.not_mem_nil, or_false] at hp
    rcases hp with rfl | rfl | rfl <;> trivial
  rcases mem_insertAll hp with hp | hp
  · obtain ⟨f, -, rfl⟩ := List.mem_map.mp hp
    exact f.2.ordered_toJson
  rcases mem_insertAll hp with hp | hp
  · exact h p hp
  · cases hp

def text (fields : List (String × Json)) (entry : String × Record) : List Char :=
  (Json.obj (membersOf fields entry)).write

theorem line_built :
    (built threshold fields).line entry.1 entry.2 = text fields entry ++ ['\n'] := by
  rw [line, object_built, text]

theorem ofChars?_text (h : ∀ f ∈ fields, f.2.Ordered) :
    ofChars? (text fields entry) = some (.obj (membersOf fields entry)) :=
  ofChars?_write ⟨(faithful_membersOf fields entry).sorted,
    orderedMembers_iff.mpr (ordered_membersOf h)⟩

theorem newline_not_mem_text : 0x0A ∉ Utf8.encode (text fields entry) := fun h =>
  newline_not_mem_write _ ((Utf8.mem_encode_iff (by decide)).mp h)

theorem foldl_log (l : Logger) (sink : Bytes) (entries : List (String × Record)) :
    entries.foldl l.log sink = sink ++ Utf8.encode (l.output entries) := by
  induction entries generalizing sink with
  | nil => simp [output, Utf8.encode]
  | cons e entries ih =>
    rw [List.foldl_cons, ih, log, output, output, List.filter_cons]
    split <;> simp [Utf8.encode]

theorem encode_output (threshold : Threshold) (fields : List (String × Json))
    (entries : List (String × Record)) :
    Utf8.encode ((built threshold fields).output entries) =
      ((entries.filter fun entry => threshold.admits entry.2.level).map fun entry =>
        Utf8.encode (text fields entry)).flatMap (· ++ [0x0A]) := by
  have henabled : (fun entry : String × Record => (built threshold fields).enabled entry.2) =
      fun entry => threshold.admits entry.2.level := by
    rw [built_eq]
    rfl
  have hline (entry : String × Record) :
      Utf8.encode ((built threshold fields).line entry.1 entry.2) =
        Utf8.encode (text fields entry) ++ [0x0A] := by
    rw [line_built, Utf8.encode, List.flatMap_append]
    rfl
  rw [output, henabled, Utf8.encode, List.flatMap_assoc, List.flatMap_map]
  exact List.flatMap_congr fun entry _ => hline entry

/-- One line for each enabled record, in order and behind what the sink held before. -/
theorem log_lines (threshold : Threshold) (fields : List (String × Json))
    (hfields : ∀ f ∈ fields, f.2.Ordered) (previous : Bytes)
    (entries : List (String × Record)) :
    let l := built threshold fields
    ∃ lines : List Bytes,
      entries.foldl l.log previous = previous ++ lines.flatMap (· ++ [0x0A]) ∧
      Utf8.encode (l.output entries) = lines.flatMap (· ++ [0x0A]) ∧
      List.Forall₂ (fun entry line => 0x0A ∉ line ∧ ∃ text m, Utf8.decode? line = some text ∧
          ofChars? text = some (.obj m) ∧ Faithful fields entry m)
        (entries.filter fun entry => threshold.admits entry.2.level) lines := by
  intro l
  refine ⟨_, ?_, encode_output threshold fields entries, ?_⟩
  · rw [foldl_log, encode_output]
  · rw [List.forall₂_map_right_iff, List.forall₂_same]
    intro entry _
    exact ⟨newline_not_mem_text, _, _, Utf8.decode?_encode _, ofChars?_text hfields,
      faithful_membersOf fields entry⟩

def overlapping : List (String × Json) :=
  [("severity", .str "forged"), ("tag", .obj [("a", .int 1), ("b", .arr [.null])]),
    ("job", .bool true)]

def forged : Record :=
  ⟨.info, "main", "one\n\"two\"", [("tag", .text "x"), ("message", .text "\n"), ("tag", .nat 7)]⟩

theorem log_lines_of_forged : (∀ f ∈ overlapping, f.2.Ordered) ∧ ∃ (line : Bytes) (text : List Char)
    (m : Members), [("10:00", forged), ("10:01", { forged with level := .debug })].foldl
        (built (.upTo .info) overlapping).log [0x0A] = [0x0A] ++ line ++ [0x0A] ∧
      Utf8.decode? line = some text ∧ ofChars? text = some (.obj m) ∧
      m.get? "severity" = some (.str "INFO") ∧ m.get? "message" = some (.str "one\n\"two\"") ∧
      m.get? "tag" = some (.int 7) ∧ m.get? "job" = some (.bool true) := by
  have hsorted : Sorted [("a", Json.int 1), ("b", .arr [.null])] := by
    unfold Sorted
    decide
  have hordered : ∀ f ∈ overlapping, f.2.Ordered := by
    simp [overlapping, Json.Ordered, Json.OrderedItems, Json.OrderedMembers, hsorted]
  obtain ⟨lines, hsink, -, hlines⟩ := log_lines (.upTo .info) overlapping hordered [0x0A]
    [("10:00", forged), ("10:01", { forged with level := .debug })]
  obtain ⟨line, rest, ⟨-, text, m, htext, hm, hfaithful⟩, hrest, rfl⟩ :=
    List.forall₂_cons_left_iff.mp hlines
  obtain rfl : rest = [] := List.forall₂_nil_left_iff.mp hrest
  refine ⟨hordered, line, text, m, ?_, htext, hm, hfaithful.severity, hfaithful.message, ?_, ?_⟩
  · simpa using hsink
  · exact hfaithful.other "tag" (by decide)
  · exact hfaithful.other "job" (by decide)

end Logger
end CaptureExport.Log
