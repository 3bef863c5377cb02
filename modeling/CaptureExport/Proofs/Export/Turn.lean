import CaptureExport.Export.Move
import CaptureExport.Proofs.FileSystem.Nodes

/-! # What a step of a move does

All steps of a move that nobody interferes with are listed once, with what they do to the files.
An attempt writes nothing but the content of the open target, which is a rendering of the source
when the attempt has copied it.
-/

namespace CaptureExport

open FileSystem

variable {a : Attempt} {fs gs : FileSystem} {h : Handles} {compress : Bool} {id : FileId}
  {data : Bytes}

namespace Handles

theorem overlay_nil (octets : Bytes) : overlay [] 0 octets = octets := by simp [overlay]

theorem content_rewound : (fs.setContent h.output []).content h.output = [] := by
  rw [content_setContent]
  split
  · rfl
  · rename_i hlen
    rw [content, List.getD_eq_getElem?_getD, List.getElem?_eq_none (by simpa using hlen)]
    rfl

def Readable (h : Handles) (fs : FileSystem) (data : Bytes) : Prop :=
  (fs.setContent h.output []).readOpened h.input = .ok data

theorem readable_of_ne (hin : h.input = .file id) (hne : id ≠ h.output) :
    h.Readable fs (fs.content id) := by
  simp [Readable, hin, readOpened, content_setContent, hne]

theorem copy_rewound (hr : h.Readable fs data) :
    (h.rewind fs).1.copy compress (h.rewind fs).2 =
      (.ok data.length,
        ⟨h.input, data.length, h.output, (rendering compress data).length⟩,
        fs.setContent h.output (rendering compress data)) := by
  simp only [Readable] at hr
  simp [copy, rewind, unread, hr, write, Except.map, content_rewound, overlay_nil,
    setContent_setContent]

/-- What an attempt can leave behind: the same open files, another content of the target, and
that content is a rendering of the source if the attempt has copied it. -/
structure Tries (h : Handles) (compress : Bool) (a : Attempt) (fs : FileSystem) (e : Ending)
    (h' : Handles) (gs : FileSystem) : Prop where
  input_eq : h'.input = h.input
  output_eq : h'.output = h.output
  files : ∃ c, gs = fs.setContent h.output c
  copied : ∀ n, e = .copied n → ∃ data, h.Readable fs data ∧ n = data.length ∧
    gs = fs.setContent h.output (rendering compress data)
  complete : a.result = .complete → ∀ data, h.Readable fs data → e = .copied data.length

theorem copy_unreadable {e : IoError}
    (hr : (fs.setContent h.output []).readOpened h.input = .error e) :
    (h.rewind fs).1.copy compress (h.rewind fs).2 = (.error e, h.rewind fs) := by
  simp [copy, rewind, unread, hr, Except.map]

theorem Tries.of_failure {h' : Handles} {e : Ending} {c : Bytes} (hin : h'.input = h.input)
    (hout : h'.output = h.output) (he : ∀ n, e ≠ .copied n)
    (hr : a.result ≠ .complete ∨ ∀ data, ¬ h.Readable fs data) :
    h.Tries compress a fs e h' (fs.setContent h.output c) := by
  refine ⟨hin, hout, ⟨c, rfl⟩, fun n hn => absurd hn (he n), fun hc data hd => ?_⟩
  rcases hr with hr | hr
  · exact absurd hc hr
  · exact absurd hd (hr data)

theorem attempt_tries (ha : a.unlinks = none) :
    h.Tries compress a fs (h.attempt compress a fs).1 (h.attempt compress a fs).2.1
      (h.attempt compress a fs).2.2 := by
  cases hr : (fs.setContent h.output []).readOpened h.input with
  | error e =>
    have hn (data : Bytes) : ¬ h.Readable fs data := by simp [Readable, hr]
    have hc : (h.rewind fs).1.copy compress (h.rewind fs).2 = _ := copy_unreadable hr
    cases hres : a.result with
    | complete =>
      simp only [attempt, ha, hres, hc]
      exact .of_failure rfl rfl (by simp) (Or.inr hn)
    | fails consumed written cause =>
      simp only [attempt, ha, hres, write, rewind, setContent_setContent]
      exact .of_failure rfl rfl (by simp) (Or.inr hn)
    | surplus extra cause =>
      simp only [attempt, ha, hres, hc]
      exact .of_failure rfl rfl (by simp) (Or.inr hn)
    | panics message =>
      simp only [attempt, ha, hres]
      exact .of_failure rfl rfl (by simp) (Or.inr hn)
  | ok data =>
    have hd : h.Readable fs data := hr
    have hc : (h.rewind fs).1.copy compress (h.rewind fs).2 = _ := copy_rewound hd
    cases hres : a.result with
    | complete =>
      simp only [attempt, ha, hres, hc]
      refine ⟨rfl, rfl, ⟨_, rfl⟩, fun n hn => ⟨data, hd, ?_, rfl⟩, fun _ data' hd' => ?_⟩
      · cases hn
        rfl
      · obtain rfl : data = data' := Except.ok.inj (hd.symm.trans hd')
        rfl
    | fails consumed written cause =>
      simp only [attempt, ha, hres, write, rewind, setContent_setContent]
      exact .of_failure rfl rfl (by simp) (Or.inl (by simp [hres]))
    | surplus extra cause =>
      simp only [attempt, ha, hres, hc, write, setContent_setContent]
      exact .of_failure rfl rfl (by simp) (Or.inl (by simp [hres]))
    | panics message =>
      simp only [attempt, ha, hres]
      exact .of_failure rfl rfl (by simp) (Or.inl (by simp [hres]))

end Handles

namespace Move

section Turn

variable (mover : Mover) (source : Path) (options : MoveOptions) (a : Attempt)

/-- The steps of a move that nobody interferes with: a phase and the files before and after. -/
inductive Turn : Phase → FileSystem → Phase → FileSystem → Prop
  | opens {fs : FileSystem} {input : Opened} (h : fs.openRead source = .ok input) :
      Turn .starting fs (.opened input) fs
  | openFails {fs : FileSystem} {e : IoError} (h : fs.openRead source = .error e) :
      Turn .starting fs (.ended (.error (.open source e))) fs
  | creates {fs gs : FileSystem} {input : Opened} {output : FileId}
      (h : fs.createNew (target mover source options) = .ok (gs, output)) :
      Turn (.opened input) fs (.copying (.opened input output) 0) gs
  | createFails {fs : FileSystem} {input : Opened} {e : IoError}
      (h : fs.createNew (target mover source options) = .error e) :
      Turn (.opened input) fs (.ended (.error (.create (target mover source options) e))) fs
  | copies {fs : FileSystem} {h : Handles} {made : ℕ} {data : Bytes} (hr : h.Readable fs data) :
      Turn (.copying h made) fs
        (if options.deleteOnSuccess then .deleting data.length (made + 1) a.denial
          else .ended (.ok ⟨target mover source options, data.length, made + 1, false⟩))
        (fs.setContent h.output (Handles.rendering options.compress data))
  | fails {fs : FileSystem} {h h' : Handles} {made : ℕ} {c : Bytes}
      (hr : a.result = .complete → ∀ data, ¬ h.Readable fs data) (hin : h'.input = h.input)
      (hout : h'.output = h.output) (hmade : made + 1 < mover.retry.attempts) :
      Turn (.copying h made) fs (.waiting h' (made + 1)) (fs.setContent h.output c)
  | givesUp {fs : FileSystem} {h : Handles} {made : ℕ} {c : Bytes} {e : MoveError}
      (hr : a.result = .complete → ∀ data, ¬ h.Readable fs data) :
      Turn (.copying h made) fs (.removing e) (fs.setContent h.output c)
  | retries {fs : FileSystem} {h : Handles} {made : ℕ} :
      Turn (.waiting h made) fs (.copying h made) fs
  | cancels {fs : FileSystem} {h : Handles} {made : ℕ} :
      Turn (.waiting h made) fs (.removing (.cancelled source made)) fs
  | removes {fs gs : FileSystem} {e : MoveError}
      (h : fs.unlink (target mover source options) = .ok gs) :
      Turn (.removing e) fs (.ended (.error e)) gs
  | removeFails {fs : FileSystem} {e : MoveError} {cause : IoError}
      (h : fs.unlink (target mover source options) = .error cause) :
      Turn (.removing e) fs (.ended (.error e)) fs
  | deletes {fs gs : FileSystem} {bytes attempts : ℕ} (h : fs.unlink source = .ok gs) :
      Turn (.deleting bytes attempts none) fs
        (.ended (.ok ⟨target mover source options, bytes, attempts, true⟩)) gs
  | deleteFails {fs : FileSystem} {bytes attempts : ℕ} {denial : Option IoError} {e : IoError}
      (h : fs.unlinkUnless denial source = .error e) :
      Turn (.deleting bytes attempts denial) fs
        (.ended (.ok ⟨target mover source options, bytes, attempts, false⟩)) fs
  | rests {fs : FileSystem} {r : Except MoveError MoveReport} : Turn (.ended r) fs (.ended r) fs

end Turn

variable {mover : Mover} {source : Path} {options : MoveOptions} {phase phase' : Phase}
  {cancelled : Bool} {made : ℕ}

theorem copyOnce_turn (ha : a.unlinks = none) :
    Turn mover source options a (.copying h made) fs
      (copyOnce mover source options h made a fs).phase
      (copyOnce mover source options h made a fs).files := by
  have ht := @Handles.attempt_tries a fs h options.compress ha
  unfold copyOnce
  generalize h.attempt options.compress a fs = r at ht
  obtain ⟨ending, h', gs⟩ := r
  obtain ⟨c, rfl⟩ : ∃ c, gs = fs.setContent h.output c := ht.files
  cases ending with
  | copied n =>
    obtain ⟨data, hr, rfl, hc⟩ := ht.copied n rfl
    simp only at hc ⊢
    rw [hc]
    exact .copies hr
  | failed cause =>
    have hr (hc : a.result = .complete) (data : Bytes) : ¬ h.Readable fs data := fun hd => by
      cases ht.complete hc data hd
    simp only
    split
    · exact .givesUp hr
    · rename_i hmade
      exact .fails hr ht.input_eq ht.output_eq (Nat.not_le.mp hmade)
  | panicked message =>
    exact .givesUp fun hc data hd => by cases ht.complete hc data hd

/-- A step of a move that nobody interferes with is one of those listed. -/
theorem step_turn (ha : a.unlinks = none) :
    Turn mover source options a phase fs
      (step mover source options a cancelled phase fs).phase
      (step mover source options a cancelled phase fs).files := by
  cases phase with
  | starting =>
    simp only [step, openSource]
    split
    · rename_i input ho
      exact .opens ho
    · rename_i e ho
      exact .openFails ho
  | opened input =>
    simp only [step, createTarget]
    split
    · rename_i gs output hc
      exact .creates hc
    · rename_i e hc
      exact .createFails hc
  | copying h made => exact copyOnce_turn ha
  | waiting h made =>
    cases cancelled with
    | true => exact .cancels
    | false => exact .retries
  | removing e =>
    simp only [step, removePartial]
    split
    · rename_i gs hu
      exact .removes hu
    · rename_i cause hu
      exact .removeFails hu
  | deleting bytes attempts denial =>
    simp only [step, deleteSource]
    split
    · rename_i gs hu
      cases denial with
      | none => exact .deletes hu
      | some e => cases hu
    · rename_i cause hu
      exact .deleteFails hu
  | ended r => exact .rests

theorem step_work_lt (a : Attempt) (hp : phase.result? = none) :
    (step mover source options a cancelled phase fs).phase.work mover.retry.attempts <
      phase.work mover.retry.attempts := by
  cases phase with
  | starting =>
    simp only [step, openSource]
    split <;> simp only [Phase.work] <;> omega
  | opened input =>
    simp only [step, createTarget]
    split <;> simp only [Phase.work] <;> omega
  | copying h made =>
    simp only [step, copyOnce]
    split
    · split <;> simp only [Phase.work] <;> omega
    · simp only [giveUp, Phase.work]
      omega
    · split <;> simp only [giveUp, Phase.work] <;> omega
  | waiting h made =>
    cases cancelled <;> simp [step, Phase.work]
  | removing e =>
    simp only [step, removePartial]
    split <;> exact Nat.zero_lt_one
  | deleting bytes attempts denial =>
    simp only [step, deleteSource]
    split <;> exact Nat.zero_lt_one
  | ended r => cases hp

end Move
end CaptureExport
