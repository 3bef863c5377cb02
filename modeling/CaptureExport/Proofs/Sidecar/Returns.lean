import CaptureExport.Proofs.Sidecar.Hearing
import CaptureExport.Proofs.Sidecar.Script
import CaptureExport.Proofs.Watch.Reports

/-! # Scripts that end a run

A signal ends a run when the end of the deadline is an instant. A sentinel always does: its notice
stays in the inbox until the watcher has taken it or the token is cancelled otherwise.
-/

namespace CaptureExport.Sidecar

open Instant (Overflows)

variable {x : Sidecar} {now : Instant} {s t : State} {commands : List Command}
  {given : List Occurrence}

/-- The watch reports that a step has made a sentinel appear. -/
def Announces (s : State) (c : FileSystem.Step) : Prop :=
  ∃ n ∈ (s.watch.observe s.files c).1, n.hasSentinel = true

theorem announces_of_comes {c : FileSystem.Step} {dir : Location}
    (hplace : s.watch.place = some dir) (h : Watch.SentinelComes s.files dir c) : Announces s c :=
  Watch.reports_sentinel hplace h

/-- The token is cancelled, or will be when the inbox is empty. -/
def Alarmed (s : State) : Prop :=
  s.trigger.cancelled = true ∨ ∃ n ∈ s.inbox, n.hasSentinel = true

theorem alarmed_change {c : FileSystem.Step} (h : Announces s c) : Alarmed (change c s) := by
  obtain ⟨n, hn, hsentinel⟩ := h
  exact Or.inr ⟨n, List.mem_append_right _ hn, hsentinel⟩

theorem cancelled_handle {pattern : SegmentPattern} {n : Notice} {w : Watcher}
    (hw : w.trigger.Lawful) (hn : n.hasSentinel = true) :
    (w.handle pattern n).trigger.cancelled = true := by
  have hany : n.announced.any Path.isSentinel = true := hn
  rw [(Watcher.handle_handles n w).trigger, Watcher.alarm, if_pos hany]
  exact hw.fire_cancelled .sentinel

theorem Alarmed.takeNotice (ho : Orderly s) (h : Alarmed s) : Alarmed (x.takeNotice s) := by
  unfold Sidecar.takeNotice
  split
  · exact h
  · rename_i n rest hinbox
    split
    · exact h
    · rcases h with hc | ⟨m, hm, hsentinel⟩
      · contradiction
      · rw [hinbox] at hm
        rcases List.mem_cons.mp hm with rfl | hm
        · exact Or.inl (cancelled_handle ho.lawful hsentinel)
        · exact Or.inr ⟨m, hm, hsentinel⟩

theorem Alarmed.step (ho : Orderly s) (h : Alarmed s) (o : Occurrence) :
    Alarmed (x.step now s o) := by
  have hkeep (hinbox : (x.step now s o).inbox = s.inbox) : Alarmed (x.step now s o) :=
    h.imp (fun hc => (step_stands hc o).cancelled) fun hn => hinbox.symm ▸ hn
  cases o with
  | change c =>
    rcases h with hc | ⟨n, hn, hsentinel⟩
    · exact Or.inl hc
    · exact Or.inr ⟨n, List.mem_append_left _ hn, hsentinel⟩
  | notice => exact h.takeNotice ho
  | exportStep i => exact hkeep (exportStep_parts x i s).2.2.2
  | tick => exact hkeep (tick_parts x s).2.2
  | signal | lateSignal | poll | deadline => exact hkeep rfl

theorem Alarmed.steps (ho : Orderly s) (h : Alarmed s) (os : List Occurrence) :
    Alarmed (x.steps now s os) := by
  induction os generalizing s with
  | nil => exact h
  | cons o os ih => exact ih (ho.step o) (h.step ho o)

theorem Later.orderly (h : Later x now s given t) (ho : Orderly s) : Orderly t := by
  obtain ⟨os, -, rfl⟩ := h
  exact ho.steps os

theorem Later.cancelled (h : Later x now s given t) (hc : s.trigger.cancelled = true) :
    t.trigger.cancelled = true := by
  obtain ⟨os, -, rfl⟩ := h
  exact (steps_stands hc os).cancelled

theorem Later.alarmed (h : Later x now s given t) (ho : Orderly s) (ha : Alarmed s) :
    Alarmed t := by
  obtain ⟨os, -, rfl⟩ := h
  exact ha.steps ho os

theorem takeNotices_inbox (now : Instant) (n : ℕ) (s : State) :
    (x.takeNotices n s).trigger.cancelled = true ∨
      (x.takeNotices n s).inbox = s.inbox.drop n := by
  induction n generalizing s with
  | zero => exact Or.inr rfl
  | succ n ih =>
    have hfirst : (x.takeNotice s).trigger.cancelled = true ∨
        (x.takeNotice s).inbox = s.inbox.drop 1 := by
      unfold takeNotice
      split
      · exact Or.inr (by simp [*])
      · split
        · exact Or.inl ‹_›
        · exact Or.inr (by simp [*])
    rcases hfirst with hc | hinbox
    · have hlater : Later x now (x.takeNotice s) [] _ := .takeNotices n _
      exact Or.inl (hlater.cancelled hc)
    · refine (ih _).imp_right fun h => ?_
      rw [takeNotices, h, hinbox, List.drop_drop, Nat.add_comm]

/-- Coming to rest cancels a state that is alarmed. -/
theorem cancelled_settle (now : Instant) (ho : Orderly s) (h : Alarmed s) :
    (x.settle s).trigger.cancelled = true := by
  have htaken : (x.takeNotices s.inbox.length s).trigger.cancelled = true := by
    have hlater : Later x now s [] (x.takeNotices s.inbox.length s) := .takeNotices _ s
    rcases takeNotices_inbox now s.inbox.length s with hc | hinbox
    · exact hc
    · refine (hlater.alarmed ho h).resolve_right ?_
      rw [hinbox, List.drop_length]
      simp
  have hpolled : Later x now (x.join (x.takeNotices s.inbox.length s)) [] (x.settle s) := .poll _
  exact hpolled.cancelled htaken

theorem run_isSome_iff : (x.run now commands s).isSome ↔
    (x.expire (x.settle (commands.foldl (x.perform now) s))).trigger.cancelled = true := by
  simp only [run]
  split <;> simp [*]

/-- A sentinel that is announced ends the run. -/
theorem run_isSome_of_announced (ho : Orderly s) {before after : List Command}
    {c : FileSystem.Step} (h : Announces (before.foldl (x.perform now) s) c) :
    (x.run now (before ++ .change c :: after) s).isSome := by
  have hbefore : Orderly (before.foldl (x.perform now) s) := (Later.script before s).orderly ho
  have hchanged : Orderly (change c (before.foldl (x.perform now) s)) := hbefore.change c
  have hafter : Later x now (change c (before.foldl (x.perform now) s)) _ _ := .script after _
  rw [run_isSome_iff, List.foldl_append, List.foldl_cons]
  have hsettled := @cancelled_settle x _ now (hafter.orderly hchanged)
    (hafter.alarmed hchanged (alarmed_change h))
  exact (@step_stands x now _ hsettled .deadline).cancelled

/-- A signal ends the run when its deadline can be held. -/
theorem run_isSome_of_signal (ho : Orderly s) (hs : s.coordinator = .listening)
    (hover : ¬ Overflows now x.config.drainDeadline) {g : Signal} (hg : .signal g ∈ commands) :
    (x.run now commands s).isSome := by
  obtain ⟨os, hperforms⟩ := exists_performs x now commands s
  obtain ⟨before, between, rfl⟩ := List.append_of_mem (hperforms.signal_mem hg)
  have hcancels := (answers hover ho hs).cancels before g between []
  rw [List.append_assoc, List.cons_append] at hcancels
  rw [hperforms.run_eq, List.append_assoc, List.cons_append, if_pos hcancels]
  rfl

end CaptureExport.Sidecar
