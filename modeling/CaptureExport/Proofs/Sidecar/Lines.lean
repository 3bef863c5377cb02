import CaptureExport.Proofs.Export.Refusal
import CaptureExport.Proofs.Flush.Terminal
import CaptureExport.Sidecar.Finish

/-! # Lines of a run

Three kinds of lines matter for the shutdown: the watcher is cancelled, an export is refused, and
the last state is not the one expected. All other lines begin otherwise.
-/

namespace CaptureExport

namespace Log.Record

def begins (r : Record) (text : String) : Bool := text.toList.isPrefixOf r.message.toList

def Plain (r : Record) : Prop :=
  r.message.toList.head? ∉ [some 'c', some 'r', some 'u']

theorem head?_of_begins {r : Record} {text : String} (h : r.begins text) (ht : text.toList ≠ []) :
    r.message.toList.head? = text.toList.head? := by
  obtain ⟨rest, hr⟩ := List.isPrefixOf_iff_prefix.mp h
  rw [← hr, List.head?_append_of_ne_nil _ ht]

theorem Plain.not_begins {r : Record} {text : String} (h : r.Plain)
    (ht : text.toList.head? ∈ [some 'c', some 'r', some 'u']) : r.begins text = false := by
  rw [Bool.eq_false_iff]
  intro hb
  have hne : text.toList ≠ [] := by
    intro hn
    simp [hn] at ht
  exact h (head?_of_begins hb hne ▸ ht)

end Log.Record

open Log

theorem Event.plain_record {event : Event} {level : Level} {origin message : String}
    {fields : List (String × Value)} : (event.record level origin message fields).Plain ↔
      message.toList.head? ∉ [some 'c', some 'r', some 'u'] := Iff.rfl

namespace Move

variable {mover : Mover} {source : Path} {options : MoveOptions} {a : Attempt} {cancelled : Bool}
  {phase : Phase} {fs : FileSystem} {made : ℕ}

theorem plain_note {level : Level} {bytes : ℕ} {cause : Option IoError} {message : String} :
    (note mover source options level bytes cause message).Plain ↔
      message.toList.head? ∉ [some 'c', some 'r', some 'u'] := Iff.rfl

theorem plain_copyOnce {h : Handles} :
    ∀ r ∈ (copyOnce mover source options h made a fs).logs, r.Plain := by
  unfold copyOnce
  simp only
  split
  · simp [plain_note, toString]
  · simp [giveUp, plain_note, toString]
  · split <;> simp [giveUp, plain_note, toString]

theorem plain_step :
    ∀ r ∈ (step mover source options a cancelled phase fs).logs, r.Plain := by
  cases phase with
  | starting =>
    simp only [step, openSource]
    split <;> simp [plain_note, toString]
  | opened input =>
    simp only [step, createTarget]
    split <;> simp [plain_note, toString]
  | copying h made => exact plain_copyOnce
  | waiting h made => simp [step]
  | removing e =>
    simp only [step, removePartial]
    split <;> simp [plain_note, toString]
  | deleting bytes attempts denial =>
    simp only [step, deleteSource]
    split <;> simp [plain_note, toString]
  | ended r => simp [step]

end Move

namespace ExportTask

variable {t : ExportTask}

theorem plain_startRecord : t.startRecord.Plain := by
  cases h : t.isTerminal <;> simp [startRecord, words, h, Event.plain_record, toString]

theorem plain_endRecord (r : Except MoveError MoveReport) : (t.endRecord r).Plain := by
  cases r <;> cases h : t.isTerminal <;>
    simp [endRecord, words, h, Event.plain_record, toString]

end ExportTask

namespace Schedule

variable {s : Schedule} {i : ℕ} {now : Instant} {j : Job}

theorem plain_framed {o : Move.Outcome} (h : ∀ r ∈ o.logs, r.Plain) :
    ∀ r ∈ framed j o, r.Plain := by
  unfold framed
  cases j.task with
  | none => exact h
  | some t =>
    intro r hr
    simp only [List.mem_append] at hr
    rcases hr with (hr | hr) | hr
    · cases hp : j.phase with
      | starting =>
        obtain rfl : r = t.startRecord := by simpa [hp] using hr
        exact ExportTask.plain_startRecord
      | _ => simp [hp] at hr
    · exact h r hr
    · cases hp : o.phase with
      | ended result =>
        obtain rfl : r = t.endRecord result := by simpa [hp] using hr
        exact ExportTask.plain_endRecord result
      | _ => simp [hp] at hr

theorem plain_stepJob (h : s.refuses j = none) :
    ∃ more, (s.stepJob i now j).logs = s.logs ++ more ∧ ∀ r ∈ more, r.Plain := by
  unfold stepJob
  rw [h]
  exact ⟨_, rfl, plain_framed Move.plain_step⟩

theorem plain_reaches {t : Schedule} (h : s.Unrefused) (hr : s.Reaches t) :
    ∃ more, t.logs = s.logs ++ more ∧ ∀ r ∈ more, r.Plain := by
  induction hr with
  | refl => exact ⟨[], (List.append_nil _).symm, by simp⟩
  | move now hreached hj _ ih =>
    obtain ⟨before, hbefore, hplain⟩ := ih
    have hn := (h.reaches hreached).refuses_eq_none (List.mem_of_getElem? hj)
    obtain ⟨after, hafter, hplain'⟩ := plain_stepJob hn
    refine ⟨before ++ after, ?_, fun r hr => ?_⟩
    · rw [hafter, hbefore, List.append_assoc]
    · exact (List.mem_append.mp hr).elim (hplain r) (hplain' r)
  | change step _ ih => exact ih

end Schedule

theorem Dispatch.plain_run {pattern : SegmentPattern} {meanwhile : Tracker → Tracker} {p : Path}
    {t : Tracker} : ∀ r ∈ (run pattern meanwhile p t).logs, r.Plain := by
  have hline (event : Event) (level : Level) (path : Path) (key : StreamKey) (n : ℕ)
      (message : String) : (record event level path key n message).Plain ↔
        message.toList.head? ∉ [some 'c', some 'r', some 'u'] := Iff.rfl
  cases hk : pattern.key? p with
  | none => simp [run, hk]
  | some key =>
    simp only [run, hk]
    generalize t.observe key p = o
    obtain ⟨rotation, t'⟩ := o
    cases rotation with
    | first => simp [detectedRecord, queuedRecord, hline, toString]
    | orphaned n => simp [detectedRecord, orphanedRecord, hline, toString]
    | superseded previous n =>
      simp only
      split <;> simp [detectedRecord, queuedRecord, leakedRecord, hline, Event.plain_record,
        toString]

theorem Watch.plain_stop {w : Watch} : ∀ r ∈ w.stop, r.Plain := by
  unfold stop
  split <;> simp [lostRecord, stopRecord, Event.plain_record]

namespace MemoryRelief

variable {m : MemoryRelief} {fs : FileSystem}

theorem plain_sample {phase : String} : ∀ r ∈ (m.sample phase fs).2, r.Plain := by
  unfold sample
  split <;> simp [record, Event.plain_record]

theorem plain_tick : ∀ r ∈ (m.tick fs).2.2, r.Plain := by
  have hbefore := @plain_sample m fs "before"
  unfold tick opening
  cases m.dropCaches fs with
  | error e =>
    intro r hr
    rcases List.mem_append.mp hr with hr | hr
    · exact hbefore r hr
    · obtain rfl := List.mem_singleton.mp hr
      simp [record, Event.plain_record]
  | ok fs =>
    have hafter := @plain_sample m fs "after"
    intro r hr
    rcases List.mem_append.mp hr with hr | hr
    · exact hbefore r hr
    · exact hafter r hr

theorem plain_report {r : Relief} : ∀ line ∈ (report r).2, line.Plain := by
  unfold report
  split <;> simp [reliefRecord, record, Event.plain_record, toString]

theorem plain_cycle : ∀ r ∈ (m.cycles 1 fs).2.2, r.Plain := by
  have htick := @plain_tick m fs
  simp only [cycles]
  generalize m.tick fs = o at htick
  obtain ⟨relief, gs, logs⟩ := o
  cases relief with
  | none => simpa using htick
  | some relief =>
    have hreport := @plain_report relief
    simp only
    generalize report relief = e at hreport
    obtain ⟨done, lines⟩ := e
    cases done with
    | panicked e => exact htick
    | returned =>
      intro r hr
      simp only [List.append_nil, List.mem_append] at hr
      exact hr.elim (htick r) (hreport r)

end MemoryRelief

namespace Flush

variable {fs : FileSystem} {src : Path} {pattern : SegmentPattern} {mover : Mover} {st : Setting}
  {plan : Plan}

theorem plain_pending : ∀ r ∈ (pending fs src pattern mover).2, r.Plain := by
  intro r hr
  obtain ⟨j, hj, hr⟩ := List.mem_flatMap.mp hr
  obtain ⟨found, -, rfl⟩ := List.mem_map.mp hj
  cases found with
  | failed path cause =>
    obtain rfl : r = scanFailedRecord src path cause := by simpa [judge] using hr
    simp [scanFailedRecord, Event.plain_record]
  | file path =>
    simp only [judge] at hr
    split at hr
    · cases hr
    · split at hr
      · obtain rfl := List.mem_singleton.mp hr
        simp [exportedRecord, Event.plain_record, toString]
      · cases hr

/-- No export of a flush is refused when the watcher is not active. -/
theorem unrefused_exports (h : st.active = false) (began : Duration) :
    (exports st plan fs began).Unrefused := by
  refine ⟨fun _ _ _ _ _ => h, fun j hj => ?_⟩
  obtain ⟨t, -, rfl⟩ := List.mem_map.mp hj
  trivial

theorem plain_run (h : st.active = false) : ∀ r ∈ (run st plan fs).logs, r.Plain := by
  have hstopped : (stoppedRecord st).Plain := by simp [stoppedRecord, Event.plain_record]
  have hfinished (summary : FlushSummary) : (finishedRecord summary).Plain := by
    simp [finishedRecord, Event.plain_record, toString]
  unfold run
  cases st.scanned with
  | none => simp [hstopped, hfinished]
  | some began =>
    simp only
    split
    · simp [hstopped, hfinished]
    · have hu := @unrefused_exports fs st plan h began
      obtain ⟨more, hlogs, hmore⟩ := Schedule.plain_reaches hu (Schedule.reaches_run _)
      intro r hr
      simp only [List.mem_append, List.mem_cons] at hr
      rcases hr with ((hr | rfl | hr) | hr) | hr
      · exact plain_pending r hr
      · simp [waitingRecord, Event.plain_record, toString]
      · refine hmore r ?_
        rw [exports, List.nil_append] at hlogs
        rwa [← hlogs]
      · split at hr
        · obtain rfl := List.mem_singleton.mp hr
          simp [timedOutRecord, Event.plain_record]
        · cases hr
      · obtain rfl : r = _ := by simpa using hr
        exact hfinished _

end Flush

namespace Sidecar

theorem plain_startRecord (x : Sidecar) : x.startRecord.Plain := by
  simp [startRecord, Event.plain_record]

theorem plain_inFlightRecord (n : ℕ) : ∀ r ∈ inFlightRecord n, r.Plain := by
  unfold inFlightRecord
  split <;> simp [Event.plain_record]

theorem plain_reliefRecord (e : TaskEnd) : (reliefRecord e).Plain := by
  cases e <;> simp [reliefRecord, MemoryRelief.stopRecord, MemoryRelief.record, Event.plain_record]

theorem plain_coordinatorRecord (c : Coordinator) : ∀ r ∈ coordinatorRecord c, r.Plain := by
  cases c <;> simp [coordinatorRecord, Event.plain_record, toString]

theorem plain_endRecord (handled : ℕ) (summary : FlushSummary) :
    (endRecord handled summary).Plain := by
  simp [endRecord, Event.plain_record]

end Sidecar
end CaptureExport
