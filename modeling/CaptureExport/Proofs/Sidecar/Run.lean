import CaptureExport.Proofs.Shutdown.Shared
import CaptureExport.Proofs.Sidecar.Lines

/-! # Runs of the sidecar

Whatever happens in a run, and in whatever order, touches the trigger only by beginning the drain
or by firing. So the watcher is cancelled once, and a cancelled run is draining when its exports
are awaited, when the rest is flushed and when it is made to terminate.
-/

namespace CaptureExport

open Log

namespace Trigger

variable {t u : Trigger} {reason : CancelReason} {logs more : List Record}

/-- What becomes of a trigger in a run, with the lines written meanwhile. -/
inductive Acts : Trigger → List Record → Trigger → Prop
  | writes {t : Trigger} {logs : List Record} (h : ∀ r ∈ logs, r.Plain) : Acts t logs t
  | drains {t : Trigger} : Acts t [] t.beginDrain.2
  | fires {t : Trigger} (reason : CancelReason) :
      Acts t (t.fire reason).2.2 (t.fire reason).2.1
  | trans {t u v : Trigger} {logs more : List Record} (h : Acts t logs u)
      (h' : Acts u more v) : Acts t (logs ++ more) v

structure Lawful (t : Trigger) : Prop where
  cancelled_eq : t.cancelled = t.fired
  draining : t.fired = true → t.state = .draining
  ne_terminated : t.state ≠ .terminated

theorem beginDrain_state (h : t.state ≠ .terminated) : t.beginDrain.2.state = .draining := by
  cases hs : t.state with
  | active => simp [beginDrain, transition, hs, LifecycleState.canMoveTo]
  | draining => simp [beginDrain, transition, hs]
  | terminated => exact absurd hs h

theorem Lawful.beginDrain (h : t.Lawful) : t.beginDrain.2.Lawful := by
  have hs := beginDrain_state h.ne_terminated
  refine ⟨?_, fun _ => hs, by simp [hs]⟩
  exact (transition_cancelled _ _ _).trans (h.cancelled_eq.trans (transition_fired _ _ _).symm)

theorem Acts.lawful (h : Acts t logs u) (ht : t.Lawful) : u.Lawful := by
  induction h with
  | writes _ => exact ht
  | drains => exact ht.beginDrain
  | @fires t reason =>
    cases hf : t.fired with
    | true =>
      rw [fire_of_fired hf]
      exact ht.beginDrain
    | false =>
      rw [fire_of_not_fired hf]
      have hs := beginDrain_state ht.ne_terminated
      exact ⟨rfl, fun _ => hs, by simp [hs]⟩
  | trans _ _ ih ih' => exact ih' (ih ht)

/-- The lines say that the watcher is cancelled once if the trigger has been fired, and never
otherwise. -/
inductive Announced : Bool → List Record → Prop
  | never {logs : List Record} (h : ∀ r ∈ logs, r.Plain) : Announced false logs
  | once {before after : List Record} (reason : CancelReason) (hb : ∀ r ∈ before, r.Plain)
      (ha : ∀ r ∈ after, r.Plain) : Announced true (before ++ fireRecord reason :: after)

theorem Announced.append_plain {fired : Bool} (h : Announced fired logs)
    (hm : ∀ r ∈ more, r.Plain) : Announced fired (logs ++ more) := by
  cases h with
  | never h => exact .never fun r hr => (List.mem_append.mp hr).elim (h r) (hm r)
  | @once before after reason hb ha =>
    rw [List.append_assoc, List.cons_append]
    exact .once reason hb fun r hr => (List.mem_append.mp hr).elim (ha r) (hm r)

theorem Acts.announced (h : Acts t more u) (ha : Announced t.fired logs) :
    Announced u.fired (logs ++ more) := by
  induction h generalizing logs with
  | writes hm => exact ha.append_plain hm
  | @drains t =>
    rw [List.append_nil, beginDrain, transition_fired]
    exact ha
  | @fires t reason =>
    cases hf : t.fired with
    | true =>
      rw [fire_of_fired hf, List.append_nil]
      change Announced t.beginDrain.2.fired logs
      rwa [beginDrain, transition_fired]
    | false =>
      rw [fire_of_not_fired hf]
      rw [hf] at ha
      cases ha with
      | never hl => exact .once reason hl (by simp)
  | trans _ _ ih ih' =>
    rw [← List.append_assoc]
    exact ih' (ih ha)

theorem Acts.cancelled (h : Acts t more u) (hc : t.cancelled = true) : u.cancelled = true := by
  induction h with
  | writes _ => exact hc
  | @drains t => exact (transition_cancelled _ _ t).trans hc
  | @fires t reason =>
    cases hf : t.fired with
    | true =>
      rw [fire_of_fired hf]
      exact (transition_cancelled _ _ t).trans hc
    | false => rw [fire_of_not_fired hf]
  | trans _ _ ih ih' => exact ih' (ih hc)

theorem Announced.count_eq (h : Announced true logs) :
    logs.countP (·.begins "cancelling PCAP watcher") = 1 := by
  cases h with
  | @once before after reason hb ha =>
    have hplain {l : List Record} (hl : ∀ r ∈ l, r.Plain) :
        l.countP (·.begins "cancelling PCAP watcher") = 0 := by
      refine List.countP_eq_zero.mpr fun r hr => ?_
      have hn : r.begins "cancelling PCAP watcher" = false := (hl r hr).not_begins (by simp)
      simp [hn]
    have hfire : (fireRecord reason).begins "cancelling PCAP watcher" = true := by
      simp [Record.begins, fireRecord, Event.record, toString]
    rw [List.countP_append, List.countP_cons, hplain hb, hplain ha, if_pos hfire]

theorem Announced.not_begins {fired : Bool} {text : String} (h : Announced fired logs)
    (ht : text.toList.head? ∈ [some 'r', some 'u']) : ∀ r ∈ logs, r.begins text = false := by
  have hhead : text.toList.head? ∈ [some 'c', some 'r', some 'u'] := List.mem_cons_of_mem _ ht
  cases h with
  | never h => exact fun r hr => (h r hr).not_begins hhead
  | @once before after reason hb ha =>
    intro r hr
    rcases List.mem_append.mp hr with hr | hr
    · exact (hb r hr).not_begins hhead
    · rcases List.mem_cons.mp hr with rfl | hr
      · rw [Bool.eq_false_iff]
        intro hbegins
        have hne : text.toList ≠ [] := by
          intro hn
          simp [hn] at ht
        rw [← Record.head?_of_begins hbegins hne] at ht
        simp [fireRecord, Event.record, toString] at ht
      · exact (ha r hr).not_begins hhead

end Trigger

namespace Coordinator

variable {lock : Path} {deadline : Duration} {now : Instant} {c : Coordinator} {t : Trigger}

theorem fire_acts {outcome : DrainOutcome} {reason : CancelReason} {before : List Record}
    (h : ∀ r ∈ before, r.Plain) : t.Acts (fire outcome reason before t).logs
      (fire outcome reason before t).trigger :=
  .trans (.writes h) (.fires reason)

theorem begin_acts {g : Signal} :
    t.Acts (begin lock deadline now g t).logs (begin lock deadline now g t).trigger := by
  have hsignal : (signalRecord g).Plain := by simp [signalRecord, Event.plain_record, toString]
  have hwaiting : (Drain.waitingRecord lock).Plain := by
    simp [Drain.waitingRecord, Drain.record, Event.plain_record, toString]
  simp only [begin]
  split
  · exact .trans .drains (.writes (by simpa using hsignal))
  · split
    · exact .trans .drains (.writes (by simpa using hsignal))
    · exact .trans .drains (.writes (by simpa using ⟨hsignal, hwaiting⟩))

theorem hear_acts {g : Signal} :
    t.Acts (hear lock deadline now g c t).logs (hear lock deadline now g c t).trigger := by
  unfold hear
  split
  · split
    · exact .writes (by simp)
    · exact begin_acts
  · exact .writes (by simp)

theorem hearLate_acts {g : Signal} :
    t.Acts (hearLate lock deadline now g c t).logs (hearLate lock deadline now g c t).trigger := by
  unfold hearLate
  split
  · split
    · exact begin_acts
    · exact .writes (by simp)
  · exact .writes (by simp)

theorem plain_failedRecord {e : LockError} : (Drain.failedRecord lock e).Plain := by
  simp [Drain.failedRecord, Drain.record, Event.plain_record, toString]

theorem poll_acts {found : LockState} :
    t.Acts (poll lock found c t).logs (poll lock found c t).trigger := by
  have hacquired : (Drain.acquiredRecord lock).Plain := by
    simp [Drain.acquiredRecord, Drain.record, Event.plain_record, toString]
  unfold poll
  split
  · split
    · exact .writes (by simp)
    · split
      · exact fire_acts (by simpa using hacquired)
      · exact .writes (by simpa using plain_failedRecord)
      · exact .writes (by simp)
      · exact .writes (by simp)
  · exact .writes (by simp)

theorem expire_acts :
    t.Acts (expire lock deadline c t).logs (expire lock deadline c t).trigger := by
  unfold expire
  split
  · split
    · exact .writes (by simp)
    · exact fire_acts (by simpa using plain_failedRecord)
  · split
    · exact .writes (by simp)
    · exact fire_acts (by simp)
  · exact .writes (by simp)

end Coordinator

namespace Watcher

/-- What a watcher does at most: it acts on the trigger and launches streaming tasks. -/
structure Goes (w w' : Watcher) : Prop where
  acts : ∃ more, w'.logs = w.logs ++ more ∧ w.trigger.Acts more w'.trigger
  tasks : ∃ new, w'.tasks = w.tasks ++ new ∧ ∀ t ∈ new, t.isTerminal = false

variable {pattern : SegmentPattern} {w w' w'' : Watcher}

theorem Goes.refl (w : Watcher) : w.Goes w :=
  ⟨⟨[], by simp, .writes (by simp)⟩, ⟨[], by simp, by simp⟩⟩

theorem Goes.trans (h : w.Goes w') (h' : w'.Goes w'') : w.Goes w'' := by
  obtain ⟨⟨logs, hlogs, hacts⟩, new, htasks, hnew⟩ := h
  obtain ⟨⟨more, hmore, hacts'⟩, newer, htasks', hnewer⟩ := h'
  refine ⟨⟨logs ++ more, ?_, hacts.trans hacts'⟩, new ++ newer, ?_, fun t ht => ?_⟩
  · rw [hmore, hlogs, List.append_assoc]
  · rw [htasks', htasks, List.append_assoc]
  · exact (List.mem_append.mp ht).elim (hnew t) (hnewer t)

theorem takeSentinel_goes (p : Path) (w : Watcher) : w.Goes (w.takeSentinel p) := by
  have hsentinel : (sentinelRecord p).Plain := by simp [sentinelRecord, Event.plain_record]
  have hacts {unremoved : List Record} (h : ∀ r ∈ unremoved, r.Plain) :
      w.trigger.Acts (sentinelRecord p :: unremoved ++ (w.trigger.fire .sentinel).2.2)
        (w.trigger.fire .sentinel).2.1 :=
    .trans (.writes (List.forall_mem_cons.mpr ⟨hsentinel, h⟩)) (.fires .sentinel)
  unfold takeSentinel
  cases w.files.unlink p with
  | ok fs =>
    exact ⟨⟨_, List.append_assoc .., hacts (by simp)⟩, [], (List.append_nil _).symm, by simp⟩
  | error e =>
    have hunremoved : (unremovedRecord p e).Plain := by simp [unremovedRecord, Event.plain_record]
    exact ⟨⟨_, List.append_assoc .., hacts (by simpa using hunremoved)⟩, [],
      (List.append_nil _).symm, by simp⟩

theorem isTerminal_of_dispatch {p : Path} {tracker : Tracker} {t : ExportTask}
    (h : (Dispatch.alone pattern p tracker).task = some t) : t.isTerminal = false := by
  unfold Dispatch.alone at h
  cases hk : pattern.key? p with
  | none => simp [Dispatch.run, hk] at h
  | some key =>
    simp only [Dispatch.run, hk] at h
    generalize tracker.observe key p = o at h
    obtain ⟨rotation, t'⟩ := o
    cases rotation with
    | superseded q n =>
      cases h
      rfl
    | _ => cases h

theorem dispatch_goes (p : Path) (w : Watcher) : w.Goes (w.dispatch pattern p) := by
  refine ⟨⟨_, rfl, .writes Dispatch.plain_run⟩, _, rfl, fun t ht => ?_⟩
  exact isTerminal_of_dispatch (Option.mem_toList.mp ht)

theorem handle_goes (n : Notice) (w : Watcher) : w.Goes (w.handle pattern n) := by
  have harrive (p : Path) (w : Watcher) : w.Goes (w.arrive pattern p) := by
    unfold arrive
    simp only
    split
    · exact ⟨(takeSentinel_goes p _).acts, (takeSentinel_goes p _).tasks⟩
    · exact ⟨(dispatch_goes p _).acts, (dispatch_goes p _).tasks⟩
  have hfold (ps : List Path) (w : Watcher) : w.Goes (ps.foldl (arrive pattern) w) := by
    induction ps generalizing w with
    | nil => exact Goes.refl w
    | cons p ps ih => exact (harrive p w).trans (ih _)
  cases n with
  | failure message =>
    refine ⟨⟨_, rfl, .writes ?_⟩, [], by simp [handle], by simp⟩
    simp [failureRecord, Event.plain_record, toString]
  | change kind paths => exact hfold _ w

end Watcher

namespace Sidecar

variable {x : Sidecar} {now : Instant} {s : State}

theorem steps_append (before after : List Occurrence) :
    x.steps now s (before ++ after) = x.steps now (x.steps now s before) after :=
  List.foldl_append ..

/-- What holds of every state of a run. -/
structure Orderly (s : State) : Prop where
  lawful : s.trigger.Lawful
  announced : Trigger.Announced s.trigger.fired s.logs
  exports_eq : s.exports.map Job.task = s.tasks.map some
  streaming : ∀ t ∈ s.tasks, t.isTerminal = false
  phase : ∀ j ∈ s.exports, j.phase.Unrefused

namespace Orderly

theorem unrefused (h : Orderly s) : (x.schedule s).Unrefused := by
  refine ⟨fun j hj t ht hterminal => ?_, h.phase⟩
  have hm : some t ∈ s.exports.map Job.task := List.mem_map.mpr ⟨j, hj, ht⟩
  rw [h.exports_eq] at hm
  obtain ⟨t', ht', he⟩ := List.mem_map.mp hm
  cases he
  rw [h.streaming t ht'] at hterminal
  cases hterminal

theorem of_acts {s' : State} {more : List Record} (h : Orderly s)
    (hlogs : s'.logs = s.logs ++ more) (hacts : s.trigger.Acts more s'.trigger)
    (htasks : s'.tasks = s.tasks) (hexports : s'.exports = s.exports) : Orderly s' where
  lawful := hacts.lawful h.lawful
  announced := hlogs ▸ hacts.announced h.announced
  exports_eq := by rw [htasks, hexports, h.exports_eq]
  streaming := htasks ▸ h.streaming
  phase := hexports ▸ h.phase

theorem change (h : Orderly s) (step : FileSystem.Step) : Orderly (Sidecar.change step s) :=
  h.of_acts (List.append_nil _).symm (.writes (by simp)) rfl rfl

theorem withTurn {t : Coordinator.Turn} (h : Orderly s) (ht : s.trigger.Acts t.logs t.trigger) :
    Orderly (s.withTurn t) :=
  h.of_acts rfl ht rfl rfl

theorem withSchedule {d : Schedule} (h : Orderly s) (hd : (x.schedule s).Reaches d) :
    Orderly (s.withSchedule d) := by
  obtain ⟨more, hlogs, hplain⟩ := Schedule.plain_reaches h.unrefused hd
  have hlogs : d.logs = more := hlogs
  refine ⟨h.lawful, ?_, hd.task_eq.trans h.exports_eq, h.streaming, (h.unrefused.reaches hd).phase⟩
  exact h.announced.append_plain (hlogs ▸ hplain)

theorem tick (h : Orderly s) : Orderly (x.tick s) := by
  unfold Sidecar.tick
  split
  · exact h
  · exact h.of_acts rfl (.writes MemoryRelief.plain_cycle) rfl rfl

theorem takeNotice (h : Orderly s) : Orderly (x.takeNotice s) := by
  unfold Sidecar.takeNotice
  cases s.inbox with
  | nil => exact h
  | cons n rest =>
    simp only
    split
    · exact h
    · obtain ⟨⟨more, hlogs, hacts⟩, new, htasks, hnew⟩ :=
        @Watcher.handle_goes x.pattern n s.toWatcher
      rw [htasks, List.drop_left]
      constructor
      case lawful => exact hacts.lawful h.lawful
      case announced => exact hlogs ▸ hacts.announced h.announced
      case exports_eq =>
        rw [List.map_append, h.exports_eq, htasks, List.map_append, List.map_map]
        rfl
      case streaming =>
        intro t ht
        rw [htasks] at ht
        exact (List.mem_append.mp ht).elim (h.streaming t) (hnew t)
      case phase =>
        intro j hj
        rcases List.mem_append.mp hj with hj | hj
        · exact h.phase j hj
        · obtain ⟨t, -, rfl⟩ := List.mem_map.mp hj
          trivial

theorem exportStep (h : Orderly s) (i : ℕ) : Orderly (x.exportStep i s) := by
  unfold Sidecar.exportStep
  cases hj : s.exports[i]? with
  | none => exact h
  | some j =>
    simp only
    split
    · exact h
    · rename_i hr
      exact h.withSchedule (.move _ .refl hj (by simpa using hr))

theorem step (h : Orderly s) (o : Occurrence) : Orderly (x.step now s o) := by
  cases o with
  | change c => exact h.change c
  | signal g => exact h.withTurn Coordinator.hear_acts
  | lateSignal g => exact h.withTurn Coordinator.hearLate_acts
  | deadline => exact h.withTurn Coordinator.expire_acts
  | notice => exact h.takeNotice
  | exportStep i => exact h.exportStep i
  | tick => exact h.tick
  | poll => exact h.withTurn Coordinator.poll_acts

theorem steps (h : Orderly s) (os : List Occurrence) : Orderly (x.steps now s os) := by
  induction os generalizing s with
  | nil => exact h
  | cons o os ih => exact ih (h.step o)

theorem start {plan : Plan} {holder : Option (Location × Node)} {fs : FileSystem}
    (h : (x.start now plan holder fs).1 = .ok s) : Orderly s := by
  unfold Sidecar.start at h
  cases hw : Watch.register x.config.srcDir fs with
  | mk result logs =>
    rw [hw] at h
    have hlogs : ∀ r ∈ logs, r.Plain := by
      have hready : (Watch.readyRecord x.config.srcDir).Plain := by
        simp [Watch.readyRecord, Event.plain_record, toString]
      have hstart : Watch.startRecord.Plain := by simp [Watch.startRecord, Event.plain_record]
      unfold Watch.register at hw
      split at hw <;> cases hw <;> simp [hready, hstart]
    cases result with
    | error e => cases h
    | ok watch =>
      cases h
      refine ⟨⟨rfl, by simp, by simp⟩, .never ?_, rfl, by simp, by simp⟩
      have hmemory : x.memory.startRecord.Plain := by
        simp [MemoryRelief.startRecord, MemoryRelief.record, Event.plain_record]
      intro r hr
      simp only [List.mem_append, List.mem_cons, List.not_mem_nil, or_false] at hr
      rcases hr with (rfl | hr) | rfl
      · exact plain_startRecord x
      · exact hlogs r hr
      · exact hmemory

theorem join (h : Orderly s) : Orderly (x.join s) ∧ ∀ j ∈ (x.join s).exports, j.result?.isSome :=
  ⟨h.withSchedule (Schedule.reaches_run _),
    (@Schedule.run_induction (x.schedule s) (fun _ => True) (fun _ _ _ _ _ _ _ _ => trivial)
      trivial).2⟩

end Orderly

/-- The token is cancelled, and the watcher has done nothing since. -/
structure Stands (s s' : State) : Prop where
  cancelled : s'.trigger.cancelled = true
  handled : s'.handled = s.handled
  tracker : s'.tracker = s.tracker
  tasks : s'.tasks = s.tasks

/-- Once the token is cancelled nothing more is dispatched, whatever happens. -/
theorem step_stands (h : s.trigger.cancelled = true) (o : Occurrence) :
    Stands s (x.step now s o) := by
  have hturn {t : Coordinator.Turn} (ht : s.trigger.Acts t.logs t.trigger) :
      Stands s (s.withTurn t) := ⟨ht.cancelled h, rfl, rfl, rfl⟩
  cases o with
  | change c => exact ⟨h, rfl, rfl, rfl⟩
  | signal g => exact hturn Coordinator.hear_acts
  | lateSignal g => exact hturn Coordinator.hearLate_acts
  | deadline => exact hturn Coordinator.expire_acts
  | notice =>
    simp only [step, takeNotice, h, if_true]
    split <;> exact ⟨h, rfl, rfl, rfl⟩
  | exportStep i =>
    simp only [step, exportStep]
    split
    · exact ⟨h, rfl, rfl, rfl⟩
    · split <;> exact ⟨h, rfl, rfl, rfl⟩
  | tick =>
    simp only [step, tick, h, true_or, if_true]
    exact ⟨h, rfl, rfl, rfl⟩
  | poll => exact hturn Coordinator.poll_acts

theorem steps_stands (h : s.trigger.cancelled = true) (os : List Occurrence) :
    Stands s (x.steps now s os) := by
  induction os generalizing s with
  | nil => exact ⟨h, rfl, rfl, rfl⟩
  | cons o os ih =>
    have hs : Stands s (x.step now s o) := step_stands h o
    have hrest := ih hs.cancelled
    exact ⟨hrest.cancelled, hrest.handled.trans hs.handled, hrest.tracker.trans hs.tracker,
      hrest.tasks.trans hs.tasks⟩

end Sidecar
end CaptureExport
