import Mathlib.Data.List.Basic
import CaptureExport.Proofs.Shutdown.Shared
import CaptureExport.Proofs.Text.Utf8
import CaptureExport.Watch.Watcher

/-! # What the watcher handles

The watcher handles the paths that were created or renamed into its directory, each once and in
order, up to the first notice with a sentinel. A sentinel is no segment: it is removed and fires
the trigger, while every other path is dispatched.
-/

namespace CaptureExport

open Log

theorem SegmentPattern.not_isSegment_of_isSentinel {p : SegmentPattern} {path : Path}
    (h : path.isSentinel) : ¬ p.isSegment path := by
  have hname : path.fileName? = some (Utf8.encode sentinelName.toList) := eq_of_beq h
  have hkey : p.keyOfName? sentinelName.toList = none := rfl
  simp [isSegment, key?, hname, Utf8.decode?_encode, hkey]

namespace Notice

def announced : Notice → List Path
  | change .created paths => paths
  | change .renamedTo paths => paths
  | _ => []

def hasSentinel (n : Notice) : Bool := n.announced.any Path.isSentinel

/-- The notices up to the first one with a sentinel. -/
def heard (ns : List Notice) : List Notice := ns.take (ns.findIdx hasSentinel + 1)

/-- The paths that have appeared until the first sentinel has been heard of. -/
def arrived (ns : List Notice) : List Path := (heard ns).flatMap announced

variable {n : Notice} {ns : List Notice}

theorem arrivals_eq_announced (n : Notice) : n.arrivals = n.announced := by
  cases n with
  | change kind paths => cases kind <;> rfl
  | failure message => rfl

theorem heard_cons (n : Notice) (ns : List Notice) :
    heard (n :: ns) = if n.hasSentinel then [n] else n :: heard ns := by
  cases h : n.hasSentinel <;> simp [heard, List.findIdx_cons, h]

theorem arrived_cons (n : Notice) (ns : List Notice) :
    arrived (n :: ns) = n.announced ++ if n.hasSentinel then [] else arrived ns := by
  rw [arrived, heard_cons]
  split <;> simp [arrived]

theorem any_arrived (ns : List Notice) :
    (arrived ns).any Path.isSentinel = ns.any hasSentinel := by
  induction ns with
  | nil => rfl
  | cons n ns ih =>
    rw [arrived_cons, List.any_append, List.any_cons]
    cases h : n.hasSentinel with
    | true => simp_all [hasSentinel]
    | false => simp_all [hasSentinel]

end Notice

namespace Trigger

variable {t : Trigger}

theorem beginDrain_beginDrain (t : Trigger) : t.beginDrain.2.beginDrain.2 = t.beginDrain.2 := by
  have hstate := beginDrain_state_ne_active t
  generalize t.beginDrain.2 = u at hstate
  simp [beginDrain, transition, hstate]

theorem fire_fire (reason other : CancelReason) (t : Trigger) :
    ((t.fire reason).2.1.fire other).2 = ((t.fire reason).2.1, []) := by
  cases hf : t.fired with
  | true =>
    have hfired : t.beginDrain.2.fired = true := (transition_fired _ _ _).trans hf
    rw [fire_of_fired hf, fire_of_fired hfired, beginDrain_beginDrain]
  | false =>
    have hstate := beginDrain_state_ne_active t
    rw [fire_of_not_fired hf, fire_of_fired rfl]
    simp [beginDrain, transition] at hstate ⊢
    simp [hstate]

theorem origin_fire (reason : CancelReason) (t : Trigger) :
    ∀ r ∈ (t.fire reason).2.2, r.origin = origin := by
  cases hf : t.fired with
  | true => simp [fire_of_fired hf]
  | false => simp [fire_of_not_fired hf, fireRecord, Event.record]

end Trigger

namespace Dispatch

variable {pattern : SegmentPattern}

theorem origin_alone {p : Path} {t : Tracker} :
    ∀ r ∈ (alone pattern p t).logs, r.origin = origin := by
  unfold alone run
  cases pattern.key? p with
  | none => simp
  | some key =>
    simp only
    cases (t.observe key p).1 with
    | first => simp [detectedRecord, queuedRecord, record, Event.record]
    | orphaned n => simp [detectedRecord, orphanedRecord, record, Event.record]
    | superseded previous n =>
      simp only
      split <;> simp [detectedRecord, leakedRecord, queuedRecord, record, Event.record]

theorem all_append (ps qs : List Path) (t : Tracker) : all pattern (ps ++ qs) t =
    let first := all pattern ps t
    let second := all pattern qs first.2.1
    (first.1 ++ second.1, second.2.1, first.2.2.1 ++ second.2.2.1,
      first.2.2.2 ++ second.2.2.2) := by
  induction ps generalizing t with
  | nil => rfl
  | cons p ps ih => simp [all, ih]

end Dispatch

namespace Watcher

def linesOf (origin : String) (logs : List Record) : List Record :=
  logs.filter fun r => r.origin = origin

def unlinked (fs : FileSystem) (path : Path) : FileSystem :=
  match fs.unlink path with
  | .ok fs => fs
  | .error _ => fs

def ordinary (paths : List Path) : List Path := paths.filter fun p => !p.isSentinel

def alarm (paths : List Path) (t : Trigger) : Trigger × List Record :=
  if paths.any Path.isSentinel then (t.fire .sentinel).2 else (t, [])

/-- What the handling of paths in order makes of a watcher. -/
structure Handles (pattern : SegmentPattern) (paths : List Path) (w w' : Watcher) : Prop where
  handled : w'.handled = w.handled ++ paths
  tracker : w'.tracker = (Dispatch.all pattern (ordinary paths) w.tracker).2.1
  tasks : w'.tasks = w.tasks ++ (Dispatch.all pattern (ordinary paths) w.tracker).2.2.1
  dispatches : linesOf Dispatch.origin w'.logs = linesOf Dispatch.origin w.logs ++
    (Dispatch.all pattern (ordinary paths) w.tracker).2.2.2
  files : w'.files = (paths.filter Path.isSentinel).foldl unlinked w.files
  trigger : w'.trigger = (alarm paths w.trigger).1
  alarms : linesOf Trigger.origin w'.logs =
    linesOf Trigger.origin w.logs ++ (alarm paths w.trigger).2

variable {pattern : SegmentPattern} {ps qs : List Path} {w w' w'' : Watcher} {n : Notice}
  {ns : List Notice}

theorem linesOf_append (origin : String) (logs more : List Record) :
    linesOf origin (logs ++ more) = linesOf origin logs ++ linesOf origin more :=
  List.filter_append ..

theorem linesOf_eq_self {origin : String} {logs : List Record} (h : ∀ r ∈ logs, r.origin = origin) :
    linesOf origin logs = logs :=
  List.filter_eq_self.mpr fun r hr => decide_eq_true (h r hr)

theorem linesOf_eq_nil {origin : String} {logs : List Record} (h : ∀ r ∈ logs, r.origin ≠ origin) :
    linesOf origin logs = [] :=
  List.filter_eq_nil_iff.mpr fun r hr => by simpa using h r hr

theorem alarm_append (ps qs : List Path) (t : Trigger) : alarm (ps ++ qs) t =
    ((alarm qs (alarm ps t).1).1, (alarm ps t).2 ++ (alarm qs (alarm ps t).1).2) := by
  cases hp : ps.any Path.isSentinel <;> cases hq : qs.any Path.isSentinel <;>
    simp [alarm, hp, hq, Trigger.fire_fire]

namespace Handles

theorem nil (h : w'.handled = w.handled) (htracker : w'.tracker = w.tracker)
    (htasks : w'.tasks = w.tasks) (hfiles : w'.files = w.files) (htrigger : w'.trigger = w.trigger)
    (hlogs : ∃ more, w'.logs = w.logs ++ more ∧ ∀ r ∈ more, r.origin = Watch.origin) :
    Handles pattern [] w w' := by
  obtain ⟨more, hlogs, horigin⟩ := hlogs
  have hmore {origin : String} (ho : origin ≠ Watch.origin) : linesOf origin more = [] :=
    linesOf_eq_nil fun r hr he => ho (he.symm.trans (horigin r hr))
  constructor
  case handled => simp [h]
  case tracker => exact htracker
  case tasks => simp [htasks, ordinary, Dispatch.all]
  case dispatches =>
    rw [hlogs, linesOf_append, hmore (by decide)]
    rfl
  case files => exact hfiles
  case trigger => exact htrigger
  case alarms =>
    rw [hlogs, linesOf_append, hmore (by decide)]
    rfl

theorem append (h : Handles pattern ps w w') (h' : Handles pattern qs w' w'') :
    Handles pattern (ps ++ qs) w w'' := by
  have hall : ordinary (ps ++ qs) = ordinary ps ++ ordinary qs := List.filter_append ..
  constructor
  case handled => rw [h'.handled, h.handled, List.append_assoc]
  case tracker => rw [h'.tracker, h.tracker, hall, Dispatch.all_append]
  case tasks => rw [h'.tasks, h.tasks, h.tracker, hall, Dispatch.all_append, List.append_assoc]
  case dispatches =>
    rw [h'.dispatches, h.dispatches, h.tracker, hall, Dispatch.all_append, List.append_assoc]
  case files => rw [h'.files, h.files, List.filter_append, List.foldl_append]
  case trigger => rw [h'.trigger, h.trigger, alarm_append]
  case alarms => rw [h'.alarms, h.alarms, h.trigger, alarm_append, List.append_assoc]

end Handles

theorem takeSentinel_handles {p : Path} (hp : p.isSentinel) :
    Handles pattern [p] w ({ w with handled := w.handled ++ [p] }.takeSentinel p) := by
  have hordinary : ordinary [p] = [] := by simp [ordinary, hp]
  have halarm : alarm [p] w.trigger = (w.trigger.fire .sentinel).2 := by simp [alarm, hp]
  obtain ⟨before, hlogs, horigin⟩ : ∃ before,
      ({ w with handled := w.handled ++ [p] }.takeSentinel p).logs =
        w.logs ++ before ++ (w.trigger.fire .sentinel).2.2 ∧
      ∀ r ∈ before, r.origin = Watch.origin := by
    unfold takeSentinel
    cases w.files.unlink p with
    | ok fs => exact ⟨[sentinelRecord p], rfl, by simp [sentinelRecord, Event.record]⟩
    | error e =>
      refine ⟨[sentinelRecord p, unremovedRecord p e], rfl, ?_⟩
      simp [sentinelRecord, unremovedRecord, Event.record]
  have hbefore {origin : String} (ho : origin ≠ Watch.origin) : linesOf origin before = [] :=
    linesOf_eq_nil fun r hr he => ho (he.symm.trans (horigin r hr))
  have hfire := Trigger.origin_fire .sentinel w.trigger
  constructor
  case handled => rfl
  case tracker => rw [hordinary]; rfl
  case tasks => rw [hordinary]; exact (List.append_nil _).symm
  case dispatches =>
    have hnone : linesOf Dispatch.origin (w.trigger.fire .sentinel).2.2 = [] :=
      linesOf_eq_nil fun r hr he => absurd ((hfire r hr).symm.trans he) (by decide)
    simp [hlogs, linesOf_append, hbefore (show Dispatch.origin ≠ Watch.origin by decide), hnone,
      hordinary, Dispatch.all]
  case files =>
    unfold takeSentinel
    simp only [hp, List.filter_cons_of_pos, List.filter_nil, List.foldl_cons, List.foldl_nil,
      unlinked]
    cases w.files.unlink p <;> rfl
  case trigger => rw [halarm]; rfl
  case alarms =>
    rw [hlogs, halarm, linesOf_append, linesOf_append, hbefore (by decide), List.append_nil,
      linesOf_eq_self hfire]

theorem dispatch_handles {p : Path} (hp : p.isSentinel = false) :
    Handles pattern [p] w ({ w with handled := w.handled ++ [p] }.dispatch pattern p) := by
  have hordinary : ordinary [p] = [p] := by simp [ordinary, hp]
  constructor
  case handled => rfl
  case tracker => simp [hordinary, dispatch, Dispatch.all]
  case tasks => simp [hordinary, dispatch, Dispatch.all]
  case dispatches =>
    simp [hordinary, dispatch, Dispatch.all, linesOf_append, linesOf_eq_self Dispatch.origin_alone]
  case files => simp [dispatch, hp]
  case trigger => simp [dispatch, alarm, hp]
  case alarms =>
    have hnone : linesOf Trigger.origin (Dispatch.alone pattern p w.tracker).logs = [] :=
      linesOf_eq_nil fun r hr he => by
        rw [Dispatch.origin_alone r hr] at he
        exact absurd he (by decide)
    simp [dispatch, alarm, hp, linesOf_append, hnone]

theorem arrive_handles (p : Path) (w : Watcher) : Handles pattern [p] w (w.arrive pattern p) := by
  unfold arrive
  cases hp : p.isSentinel with
  | true => simpa [hp] using takeSentinel_handles hp
  | false => simpa [hp] using dispatch_handles hp

theorem foldl_arrive_handles (paths : List Path) (w : Watcher) :
    Handles pattern paths w (paths.foldl (arrive pattern) w) := by
  induction paths generalizing w with
  | nil => exact .nil rfl rfl rfl rfl rfl ⟨[], by simp⟩
  | cons p paths ih => exact (arrive_handles p w).append (ih _)

theorem handle_handles (n : Notice) (w : Watcher) :
    Handles pattern n.announced w (w.handle pattern n) := by
  cases n with
  | failure message =>
    refine .nil rfl rfl rfl rfl rfl ⟨[failureRecord message], rfl, ?_⟩
    simp [failureRecord, Event.record]
  | change kind paths =>
    rw [handle, Notice.arrivals_eq_announced]
    exact foldl_arrive_handles _ w

theorem Handles.cancelled (h : Handles pattern ps w w') (hfired : w.trigger.fired = false)
    (hcancelled : w.trigger.cancelled = false) :
    w'.trigger.cancelled = ps.any Path.isSentinel ∧
      (ps.any Path.isSentinel = false → w'.trigger = w.trigger) := by
  rw [h.trigger, alarm]
  cases hs : ps.any Path.isSentinel with
  | true => simp [Trigger.fire_of_not_fired hfired]
  | false => simp [hcancelled]

theorem run_of_cancelled (h : w.trigger.cancelled = true) : run pattern ns w = w := by
  cases ns <;> simp [run, h]

/-- The watcher stops behind the first notice with a sentinel. -/
theorem run_handles (hfired : w.trigger.fired = false) (hcancelled : w.trigger.cancelled = false) :
    Handles pattern (Notice.arrived ns) w (run pattern ns w) := by
  induction ns generalizing w with
  | nil => exact .nil rfl rfl rfl rfl rfl ⟨[], by simp [run]⟩
  | cons n ns ih =>
    have hn := @handle_handles pattern n w
    obtain ⟨hstop, hgo⟩ := hn.cancelled hfired hcancelled
    rw [run, hcancelled, Notice.arrived_cons]
    cases hs : n.hasSentinel with
    | true =>
      rw [run_of_cancelled (hstop.trans hs)]
      simpa using hn
    | false =>
      have htrigger := hgo hs
      exact hn.append (ih (htrigger ▸ hfired) (htrigger ▸ hcancelled))

/-- The watcher handles what has appeared, each path once and in order, until the first sentinel
has been heard of. A cancelled watcher handles nothing. -/
theorem run_arrived (pattern : SegmentPattern) (ns : List Notice) (w : Watcher) :
    (w.trigger.cancelled = true → run pattern ns w = w) ∧
    (w.trigger.cancelled = false → w.trigger.fired = false →
      let out := run pattern ns w
      let paths := Notice.arrived ns
      let (_, tracker, tasks, lines) := Dispatch.all pattern (ordinary paths) w.tracker
      out.handled = w.handled ++ paths ∧
      out.handled.length =
        w.handled.length + ((Notice.heard ns).map fun n => n.announced.length).sum ∧
      out.tracker = tracker ∧ out.tasks = w.tasks ++ tasks ∧
      linesOf Dispatch.origin out.logs = linesOf Dispatch.origin w.logs ++ lines ∧
      out.files = (paths.filter Path.isSentinel).foldl unlinked w.files ∧
      out.trigger = (if ns.any Notice.hasSentinel then
          { w.trigger.beginDrain.2 with fired := true, cancelled := true } else w.trigger) ∧
      linesOf Trigger.origin out.logs = linesOf Trigger.origin w.logs ++
        if ns.any Notice.hasSentinel then [Trigger.fireRecord .sentinel] else []) ∧
    ∀ (p : SegmentPattern) (path : Path), path.isSentinel → ¬ p.isSegment path := by
  refine ⟨run_of_cancelled, fun hcancelled hfired => ?_,
    fun p path => SegmentPattern.not_isSegment_of_isSentinel⟩
  have h := @run_handles pattern w ns hfired hcancelled
  have halarm : alarm (Notice.arrived ns) w.trigger =
      if ns.any Notice.hasSentinel then
        ({ w.trigger.beginDrain.2 with fired := true, cancelled := true },
          [Trigger.fireRecord .sentinel])
      else (w.trigger, []) := by
    rw [alarm, Notice.any_arrived, Trigger.fire_of_not_fired hfired]
  refine ⟨h.handled, ?_, h.tracker, h.tasks, h.dispatches, h.files, ?_, ?_⟩
  · rw [h.handled, List.length_append, Notice.arrived, List.length_flatMap]
  · rw [h.trigger, halarm]
    split <;> rfl
  · rw [h.alarms, halarm]
    split <;> rfl

def mixed : List Notice :=
  [.failure "queue overflow", .change .created [.ofString "in/part__0_a__20240101T000000.pcap"],
    .change .renamedFrom [.ofString "in/old"], .change .renamedTo [.ofString "in/new"],
    .change .renamedBoth [.ofString "in/old", .ofString "in/new"],
    .change .created [.ofString "in/part__0_a__20240101T000001.pcap",
      .ofString "in/TCPDUMPW_EXITED", .ofString "in/part__0_a__20240101T000002.pcap"],
    .change .created [.ofString "in/part__0_a__20240101T000003.pcap"]]

theorem run_arrived_of_mixed :
    (run ⟨["pcap"]⟩ mixed { files := .empty }).handled =
      [.ofString "in/part__0_a__20240101T000000.pcap", .ofString "in/new",
        .ofString "in/part__0_a__20240101T000001.pcap", .ofString "in/TCPDUMPW_EXITED",
        .ofString "in/part__0_a__20240101T000002.pcap"] := by
  obtain ⟨hhandled, -⟩ := (run_arrived ⟨["pcap"]⟩ mixed { files := .empty }).2.1 rfl rfl
  have harrived : Notice.arrived mixed =
      [.ofString "in/part__0_a__20240101T000000.pcap", .ofString "in/new",
        .ofString "in/part__0_a__20240101T000001.pcap", .ofString "in/TCPDUMPW_EXITED",
        .ofString "in/part__0_a__20240101T000002.pcap"] := by decide +kernel
  rw [hhandled, harrived]
  rfl

end Watcher
end CaptureExport
