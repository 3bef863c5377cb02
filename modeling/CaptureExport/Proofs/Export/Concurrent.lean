import Mathlib.Data.List.Basic
import Mathlib.Logic.Function.Basic
import CaptureExport.Proofs.Export.Turn
import CaptureExport.Proofs.FileSystem.Operations
import CaptureExport.Proofs.Gzip.RoundTrip

/-! # Concurrent moves

Any number of moves share the files, and their steps interleave in any order. A target is created
only where nothing stands, which makes its location the move's own: no other move removes or
writes it. The invariant compares the files with those from before the first step.
-/

namespace CaptureExport

open FileSystem

structure Call where
  mover : Mover
  source : Path
  options : MoveOptions

def Call.target (c : Call) : Path := Move.target c.mover c.source c.options

def Copies (compress : Bool) (octets content : Bytes) : Prop :=
  if compress then Gzip.decode? octets = some content else octets = content

theorem copies_rendering (compress : Bool) (content : Bytes) :
    Copies compress (Handles.rendering compress content) content := by
  cases compress
  · rfl
  · exact Gzip.decode?_encode content

namespace Move.Phase

def Holds : Phase → Prop
  | copying _ _ | waiting _ _ | removing _ | deleting _ _ _ | ended (.ok _) => True
  | _ => False

def HasCopied : Phase → Prop
  | deleting _ _ _ | ended (.ok _) => True
  | _ => False

theorem Holds.of_hasCopied {phase : Phase} (h : phase.HasCopied) : phase.Holds := by
  cases phase with
  | ended r => cases r <;> exact h
  | _ => first | exact h | exact trivial

end Move.Phase

namespace Concurrent

open Move

structure State (ι : Type) where
  files : FileSystem
  phase : ι → Phase

def start (ι : Type) (fs : FileSystem) : State ι := ⟨fs, fun _ => .starting⟩

variable {ι : Type}

def State.step [DecidableEq ι] (calls : ι → Call) (s : State ι) (i : ι) (a : Attempt)
    (cancelled : Bool) : State ι :=
  let o := Move.step (calls i).mover (calls i).source (calls i).options a cancelled (s.phase i)
    s.files
  ⟨o.files, Function.update s.phase i o.phase⟩

/-- Steps of the calls in any order, with any attempts and cancellations, while nobody else
touches the files. -/
inductive Steps [DecidableEq ι] (calls : ι → Call) (s : State ι) : State ι → Prop
  | refl : Steps calls s s
  | tail {t : State ι} {i : ι} {a : Attempt} {cancelled : Bool} (h : Steps calls s t)
      (ha : a.unlinks = none) : Steps calls s (t.step calls i a cancelled)

/-- No target of a call is the source of another one, whether a link there is followed or not. -/
def Apart (fs : FileSystem) (calls : ι → Call) : Prop :=
  ∀ i j follow loc, i ≠ j → fs.place? false (calls i).target = some loc →
    fs.place? follow (calls j).source ≠ some loc

def Owns (fs₀ fs : FileSystem) (c : Call) (loc : Location) (id : FileId) : Prop :=
  fs₀.place? false c.target = some loc ∧ fs₀.node? loc = none ∧
    fs.node? loc = some (.file id) ∧ fs₀.contents.length ≤ id

def Reads (fs₀ : FileSystem) (c : Call) (input : Opened) : Prop :=
  ∀ id, input = .file id → id < fs₀.contents.length ∧ fs₀.openRead c.source = .ok (.file id)

/-- A complete copy of the source as it was before stands at the target of a call. -/
def Copied (fs₀ fs : FileSystem) (c : Call) : Prop :=
  ∃ loc id content, Owns fs₀ fs c loc id ∧ fs₀.readFile c.source = .ok content ∧
    fs.content id = Handles.rendering c.options.compress content

/-- What a call has done to the files when it is in a phase. -/
def Fits (fs₀ fs : FileSystem) (c : Call) : Phase → Prop
  | .starting => True
  | .opened input => Reads fs₀ c input
  | .copying h _ | .waiting h _ => Reads fs₀ c h.input ∧ ∃ loc, Owns fs₀ fs c loc h.output
  | .removing _ => ∃ loc id, Owns fs₀ fs c loc id
  | .deleting _ _ _ | .ended (.ok _) => Copied fs₀ fs c
  | .ended (.error _) => True

/-- What holds in every state that the calls reach: earlier contents are as they were, and so is an
earlier node unless a call has deleted it as its source. -/
structure Safe (calls : ι → Call) (fs₀ : FileSystem) (s : State ι) : Prop where
  sound : s.files.Sound
  working : s.files.working = fs₀.working
  length_le : fs₀.contents.length ≤ s.files.contents.length
  content_eq : ∀ id, id < fs₀.contents.length → s.files.content id = fs₀.content id
  kept : ∀ loc node, fs₀.node? loc = some node → s.files.node? loc = some node ∨
    (s.files.node? loc = none ∧ node ≠ .directory ∧ ∃ i r l,
      s.phase i = .ended r ∧ fs₀.place? false (calls i).source = some loc ∧
        fs₀.place? false (calls i).target = some l ∧ fs₀.node? l = none)
  fresh : ∀ loc node, s.files.node? loc = some node → fs₀.node? loc = some node ∨
    (fs₀.node? loc = none ∧ ∃ i id, node = .file id ∧ fs₀.contents.length ≤ id ∧
      fs₀.place? false (calls i).target = some loc ∧ s.phase i ≠ .starting)
  fits : ∀ i, Fits fs₀ s.files (calls i) (s.phase i)
  exclusive : ∀ i j, (s.phase i).Holds → (s.phase j).Holds →
    fs₀.place? false (calls i).target = fs₀.place? false (calls j).target → i = j

/-- What a step of one call changes at most: its phase, its target while it copies, and the entry
of its source once a complete copy stands. -/
structure Change (calls : ι → Call) (fs₀ : FileSystem) (i : ι) (s t : State ι) : Prop where
  others : ∀ j, j ≠ i → t.phase j = s.phase j
  started : t.phase i ≠ .starting
  ended : ∀ r, s.phase i = .ended r → t.phase i = .ended r
  copied : (s.phase i).HasCopied → (t.phase i).HasCopied
  sound : t.files.Sound
  working : t.files.working = s.files.working
  length_le : s.files.contents.length ≤ t.files.contents.length
  content_eq : ∀ id, id < fs₀.contents.length → t.files.content id = s.files.content id
  kept : ∀ loc node, fs₀.node? loc = some node → s.files.node? loc = some node →
    t.files.node? loc = some node ∨ (t.files.node? loc = none ∧ node ≠ .directory ∧ ∃ report l,
      t.phase i = .ended (.ok report) ∧ fs₀.place? false (calls i).source = some loc ∧
        fs₀.place? false (calls i).target = some l ∧ fs₀.node? l = none)
  gone : ∀ loc node, fs₀.node? loc = some node → s.files.node? loc = none →
    t.files.node? loc = none
  fresh : ∀ loc node, t.files.node? loc = some node → s.files.node? loc = some node ∨
    (fs₀.node? loc = none ∧ ∃ id, node = .file id ∧ fs₀.contents.length ≤ id ∧
      fs₀.place? false (calls i).target = some loc)
  fits : Fits fs₀ t.files (calls i) (t.phase i)
  targets : ∀ j, (s.phase j).Holds → j ≠ i ∨ (s.phase j).HasCopied → ∀ loc id,
    Owns fs₀ s.files (calls j) loc id →
      t.files.node? loc = some (.file id) ∧ t.files.content id = s.files.content id
  holds : (t.phase i).Holds → (s.phase i).Holds ∨ ∀ j, (s.phase j).Holds →
    fs₀.place? false (calls j).target ≠ fs₀.place? false (calls i).target

variable {calls : ι → Call} {fs₀ gs : FileSystem} {s t : State ι} {i : ι} {phase' : Phase}
  {a : Attempt} {c : Call} {loc : Location} {node : Node} {id : FileId}

theorem Fits.owns {phase : Phase} (h : Fits fs₀ s.files c phase) (hh : phase.Holds) :
    ∃ loc id, Owns fs₀ s.files c loc id := by
  cases phase with
  | starting => cases hh
  | opened input => cases hh
  | copying h₁ made =>
    obtain ⟨-, loc, ho⟩ := h
    exact ⟨loc, _, ho⟩
  | waiting h₁ made =>
    obtain ⟨-, loc, ho⟩ := h
    exact ⟨loc, _, ho⟩
  | removing e => exact h
  | deleting bytes attempts denial =>
    obtain ⟨loc, id, _, ho, -⟩ := h
    exact ⟨loc, id, ho⟩
  | ended r =>
    cases r with
    | ok report =>
      obtain ⟨loc, id, _, ho, -⟩ := h
      exact ⟨loc, id, ho⟩
    | error e => cases hh

theorem Fits.copied {fs : FileSystem} {phase : Phase} (h : Fits fs₀ fs c phase)
    (hh : phase.HasCopied) : Copied fs₀ fs c := by
  cases phase with
  | deleting bytes attempts denial => exact h
  | ended r =>
    cases r with
    | ok report => exact h
    | error e => cases hh
  | _ => cases hh

theorem Fits.frame {fs : FileSystem} {phase : Phase} (h : Fits fs₀ fs c phase)
    (hsame : phase.Holds → ∀ loc id, Owns fs₀ fs c loc id →
      gs.node? loc = some (.file id) ∧ gs.content id = fs.content id) :
    Fits fs₀ gs c phase := by
  have howns {loc : Location} {id : FileId} (hh : phase.Holds) (ho : Owns fs₀ fs c loc id) :
      Owns fs₀ gs c loc id := ⟨ho.1, ho.2.1, (hsame hh loc id ho).1, ho.2.2.2⟩
  have hcopied (hh : phase.Holds) (hc : Copied fs₀ fs c) : Copied fs₀ gs c := by
    obtain ⟨loc, id, content, ho, hr, hc⟩ := hc
    exact ⟨loc, id, content, howns hh ho, hr, (hsame hh loc id ho).2.trans hc⟩
  cases phase with
  | starting => trivial
  | opened input => exact h
  | copying h₁ made =>
    obtain ⟨hr, loc, ho⟩ := h
    exact ⟨hr, loc, howns trivial ho⟩
  | waiting h₁ made =>
    obtain ⟨hr, loc, ho⟩ := h
    exact ⟨hr, loc, howns trivial ho⟩
  | removing e =>
    obtain ⟨loc, id, ho⟩ := h
    exact ⟨loc, id, howns trivial ho⟩
  | deleting bytes attempts denial => exact hcopied trivial h
  | ended r =>
    cases r with
    | ok report => exact hcopied trivial h
    | error e => trivial

namespace Safe

theorem start (hs : fs₀.Sound) : Safe calls fs₀ (start ι fs₀) :=
  ⟨hs, rfl, Nat.le_refl _, fun _ _ => rfl, fun _ _ h => Or.inl h, fun _ _ h => Or.inl h,
    fun _ => trivial, fun _ _ h => by cases h⟩

variable (h : Safe calls fs₀ s)
include h

theorem narrows : Narrows fs₀ s.files := by
  constructor
  case directory =>
    intro loc
    constructor
    · intro hd
      rcases h.fresh loc _ hd with hd | ⟨-, _, _, hf, -⟩
      · exact hd
      · cases hf
    · intro hd
      rcases h.kept loc _ hd with hd | ⟨-, hn, -⟩
      · exact hd
      · exact absurd rfl hn
  case link =>
    intro loc t ht
    rcases h.fresh loc _ ht with ht | ⟨-, _, _, hf, -⟩
    · exact ht
    · cases hf
  case working => exact h.working

theorem place_eq {p : Path} {parent : Location} {name : Name} {n : Option Node} {slash : Bool}
    (hr : s.files.resolve false p = .ok (.entry parent name n, slash)) :
    fs₀.place? false p = some (name :: parent) :=
  place?_of_resolve (h.narrows.resolve_eq hr (Or.inl rfl))

theorem owns_ne {j : ι} {l : Location} {k : FileId} (hij : i ≠ j) (hi : (s.phase i).Holds)
    (hj : (s.phase j).Holds) (ho : Owns fs₀ s.files (calls i) loc id)
    (ho' : Owns fs₀ s.files (calls j) l k) : loc ≠ l ∧ id ≠ k := by
  have hne : loc ≠ l := by
    rintro rfl
    exact hij (h.exclusive i j hi hj (ho.1.trans ho'.1.symm))
  refine ⟨hne, ?_⟩
  rintro rfl
  exact hne (h.sound.eq_of_file ho.2.2.1 ho'.2.2.1)

/-- The invariant holds after a change for which one call is responsible. -/
theorem of_change (hc : Change calls fs₀ i s t) : Safe calls fs₀ t := by
  have hstill {j : ι} {r} (hj : s.phase j = .ended r) : t.phase j = .ended r := by
    by_cases hji : j = i
    · subst hji
      exact hc.ended r hj
    · rw [hc.others j hji, hj]
  constructor
  case sound => exact hc.sound
  case working => exact hc.working.trans h.working
  case length_le => exact Nat.le_trans h.length_le hc.length_le
  case content_eq => exact fun id hid => (hc.content_eq id hid).trans (h.content_eq id hid)
  case kept =>
    intro loc node hn
    rcases h.kept loc node hn with hs | ⟨hs, hd, j, r, l, hj, hsource, htarget, hfree⟩
    · rcases hc.kept loc node hn hs with hg | ⟨hg, hd, report, l, hrest⟩
      · exact Or.inl hg
      · exact Or.inr ⟨hg, hd, i, .ok report, l, hrest⟩
    · exact Or.inr ⟨hc.gone loc node hn hs, hd, j, r, l, hstill hj, hsource, htarget, hfree⟩
  case fresh =>
    intro loc node hn
    rcases hc.fresh loc node hn with hs | ⟨hf, id, rfl, hid, htarget⟩
    · rcases h.fresh loc node hs with hs | ⟨hf, j, id, rfl, hid, htarget, hj⟩
      · exact Or.inl hs
      · refine Or.inr ⟨hf, j, id, rfl, hid, htarget, ?_⟩
        by_cases hji : j = i
        · subst hji
          exact hc.started
        · rwa [hc.others j hji]
    · exact Or.inr ⟨hf, i, id, rfl, hid, htarget, hc.started⟩
  case fits =>
    intro j
    by_cases hji : j = i
    · subst hji
      exact hc.fits
    · rw [hc.others j hji]
      exact (h.fits j).frame fun hh => hc.targets j hh (Or.inl hji)
  case exclusive =>
    intro j k hj hk he
    by_cases hji : j = i
    · by_cases hki : k = i
      · rw [hji, hki]
      · subst hji
        rw [hc.others k hki] at hk
        rcases hc.holds hj with hh | hh
        · exact h.exclusive j k hh hk he
        · exact absurd he.symm (hh k hk)
    · rw [hc.others j hji] at hj
      by_cases hki : k = i
      · subst hki
        rcases hc.holds hk with hh | hh
        · exact h.exclusive j k hj hh he
        · exact absurd he (hh j hj)
      · rw [hc.others k hki] at hk
        exact h.exclusive j k hj hk he

theorem reads_of_openRead (ha : Apart fs₀ calls) (hs₀ : fs₀.Sound) (hp : s.phase i = .starting)
    {input : Opened} (ho : s.files.openRead (calls i).source = .ok input) :
    Reads fs₀ (calls i) input := by
  rintro id rfl
  obtain ⟨parent, name, hr, hn⟩ := openRead_eq_file ho
  rcases h.fresh _ _ hn with hn₀ | ⟨hn₀, j, k, -, -, htarget, hj⟩
  · have hr₀ := h.narrows.resolve_eq hr (Or.inr (by simp [Spot.on, Spot.NoLink, hn₀]))
    rw [Spot.on, hn₀] at hr₀
    exact ⟨hs₀.id_lt hn₀, openRead_of_resolve hr₀⟩
  · have hr₀ := h.narrows.resolve_eq hr (Or.inr (by simp [Spot.on, Spot.NoLink, hn₀]))
    have hji : j ≠ i := by
      rintro rfl
      exact hj hp
    exact absurd (place?_of_resolve hr₀) (ha j i true _ hji htarget)

theorem copied_of_readable {hd : Handles} {data : Bytes} (hr : Reads fs₀ (calls i) hd.input)
    (ho : Owns fs₀ s.files (calls i) loc hd.output) (hdata : hd.Readable s.files data) :
    Copied fs₀ (s.files.setContent hd.output
      (Handles.rendering (calls i).options.compress data)) (calls i) := by
  cases hin : hd.input with
  | directory => simp [Handles.Readable, hin, readOpened] at hdata
  | file id =>
    obtain ⟨hlt, hopen⟩ := hr id hin
    have hne : id ≠ hd.output := Nat.ne_of_lt (Nat.lt_of_lt_of_le hlt ho.2.2.2)
    have hread := hdata.symm.trans (Handles.readable_of_ne hin hne)
    obtain rfl : data = s.files.content id := Except.ok.inj hread
    refine ⟨loc, hd.output, fs₀.content id, ⟨ho.1, ho.2.1, ?_, ho.2.2.2⟩,
      readFile_of_openRead hopen, ?_⟩
    · rw [node?_setContent, ho.2.2.1]
    · rw [content_setContent, if_pos ⟨rfl, h.sound.id_lt ho.2.2.1⟩, h.content_eq id hlt]

section Change

variable (hothers : ∀ j, j ≠ i → t.phase j = s.phase j)
include hothers

theorem change_of_same_files (hfiles : t.files = s.files) (hstart : t.phase i ≠ .starting)
    (hended : ∀ r, s.phase i = .ended r → t.phase i = .ended r)
    (hcopied : (s.phase i).HasCopied → (t.phase i).HasCopied)
    (hfits : Fits fs₀ s.files (calls i) (t.phase i))
    (hholds : (t.phase i).Holds → (s.phase i).Holds) : Change calls fs₀ i s t where
  others := hothers
  started := hstart
  ended := hended
  copied := hcopied
  sound := hfiles ▸ h.sound
  working := by rw [hfiles]
  length_le := Nat.le_of_eq (by rw [hfiles])
  content_eq := fun id _ => by rw [hfiles]
  kept := fun loc node _ hn => Or.inl (by rw [hfiles, hn])
  gone := fun loc node _ hn => by rw [hfiles, hn]
  fresh := fun loc node hn => Or.inl (by rw [← hfiles, hn])
  fits := by rwa [hfiles]
  targets := fun j _ _ loc id ho => by
    rw [hfiles]
    exact ⟨ho.2.2.1, rfl⟩
  holds := fun hh => Or.inl (hholds hh)

theorem change_of_creates (ha : Apart fs₀ calls) {input : Opened}
    (hp : s.phase i = .opened input)
    (hc : s.files.createNew (calls i).target = .ok (t.files, id))
    (hq : t.phase i = .copying (.opened input id) 0) : Change calls fs₀ i s t := by
  obtain ⟨parent, name, hr, hfree, hfiles, rfl⟩ := createNew_eq_ok hc
  have hplace := h.place_eq hr
  obtain ⟨hparent, hname⟩ := resolve_isName h.sound hr
  have hfree₀ : fs₀.node? (name :: parent) = none := by
    cases hn : fs₀.node? (name :: parent) with
    | none => rfl
    | some node =>
      rcases h.kept _ _ hn with hs | ⟨-, -, j, r, l, hj, hsource, -⟩
      · rw [hfree] at hs
        cases hs
      · have hij : i ≠ j := by
          rintro rfl
          rw [hp] at hj
          cases hj
        exact absurd hsource (ha i j false _ hij hplace)
  have hnode (l : Location) : t.files.node? l =
      if l = name :: parent then some (.file s.files.contents.length) else s.files.node? l := by
    rw [hfiles, node?_insertFile hfree]
  have hcontent {k : FileId} (hk : k < s.files.contents.length) :
      t.files.content k = s.files.content k := by
    rw [hfiles, content_insertFile, if_neg (Nat.ne_of_lt hk)]
  have hne {l : Location} {node : Node} (hl : s.files.node? l = some node) :
      l ≠ name :: parent := by
    rintro rfl
    rw [hfree] at hl
    cases hl
  have hnew : t.files.node? (name :: parent) = some (.file s.files.contents.length) := by
    rw [hnode, if_pos rfl]
  exact {
    others := hothers
    started := by simp [hq]
    ended := fun r hr => by
      rw [hp] at hr
      cases hr
    copied := fun hh => by
      rw [hp] at hh
      cases hh
    sound := by
      rw [hfiles]
      exact h.sound.insertFile hfree hparent hname
    working := by rw [hfiles, FileSystem.insertFile]
    length_le := by simp [hfiles, FileSystem.insertFile]
    content_eq := fun k hk => hcontent (Nat.lt_of_lt_of_le hk h.length_le)
    kept := fun l node _ hn => Or.inl (by rw [hnode, if_neg (hne hn), hn])
    gone := fun l node hn hg => by
      rw [hnode, if_neg, hg]
      rintro rfl
      rw [hfree₀] at hn
      cases hn
    fresh := fun l node hn => by
      rw [hnode] at hn
      split at hn
      · rename_i hl
        subst hl
        cases hn
        exact Or.inr ⟨hfree₀, _, rfl, h.length_le, hplace⟩
      · exact Or.inl hn
    fits := by
      have hreads := h.fits i
      rw [hp] at hreads
      rw [hq]
      exact ⟨hreads, _, hplace, hfree₀, hnew, h.length_le⟩
    targets := fun j _ _ l k ho =>
      ⟨by rw [hnode, if_neg (hne ho.2.2.1), ho.2.2.1], hcontent (h.sound.id_lt ho.2.2.1)⟩
    holds := fun _ => Or.inr fun j hj he => by
      obtain ⟨l, k, ho⟩ := (h.fits j).owns hj
      obtain rfl : l = name :: parent := Option.some.inj (ho.1.symm.trans (he.trans hplace))
      exact hne ho.2.2.1 rfl }

theorem change_of_writes {c : Bytes} (ho : Owns fs₀ s.files (calls i) loc id)
    (hp : (s.phase i).Holds) (hp' : ¬ (s.phase i).HasCopied)
    (hfiles : t.files = s.files.setContent id c) (hstart : t.phase i ≠ .starting)
    (hfits : Fits fs₀ t.files (calls i) (t.phase i)) : Change calls fs₀ i s t := by
  have hnode (l : Location) : t.files.node? l = s.files.node? l := by
    rw [hfiles, node?_setContent]
  have hcontent {k : FileId} (hk : k ≠ id) : t.files.content k = s.files.content k := by
    rw [hfiles, content_setContent, if_neg fun hn => hk hn.1]
  exact {
    others := hothers
    started := hstart
    ended := fun r hr => by
      rw [hr] at hp hp'
      cases r with
      | ok report => exact absurd trivial hp'
      | error e => cases hp
    copied := fun hh => absurd hh hp'
    sound := by
      rw [hfiles]
      exact h.sound.setContent
    working := by rw [hfiles, FileSystem.setContent]
    length_le := by simp [hfiles, FileSystem.setContent]
    content_eq := fun k hk => hcontent (Nat.ne_of_lt (Nat.lt_of_lt_of_le hk ho.2.2.2))
    kept := fun l node _ hn => Or.inl ((hnode l).trans hn)
    gone := fun l node _ hn => (hnode l).trans hn
    fresh := fun l node hn => Or.inl ((hnode l).symm.trans hn)
    fits := hfits
    targets := fun j hj hji l k ho' => by
      have hij : i ≠ j := by
        rintro rfl
        rcases hji with hji | hji
        · exact hji rfl
        · exact hp' hji
      exact ⟨(hnode l).trans ho'.2.2.1, hcontent (h.owns_ne hij hp hj ho ho').2.symm⟩
    holds := fun _ => Or.inl hp }

theorem change_of_removes {e : MoveError} (hp : s.phase i = .removing e)
    (hu : s.files.unlink (calls i).target = .ok t.files) (hq : t.phase i = .ended (.error e)) :
    Change calls fs₀ i s t := by
  obtain ⟨parent, name, node, hr, hn, hdir, hfiles⟩ := unlink_eq_ok hu
  have hplace := h.place_eq hr
  have hholds : (s.phase i).Holds := by simp [hp, Phase.Holds]
  obtain ⟨l, id, ho⟩ := (h.fits i).owns hholds
  obtain rfl : l = name :: parent := Option.some.inj (ho.1.symm.trans hplace)
  have hnode {l : Location} (hl : l ≠ name :: parent) : t.files.node? l = s.files.node? l := by
    rw [hfiles, node?_erase, if_neg fun h => hl h.1]
  have hself : t.files.node? (name :: parent) = none := by
    rw [hfiles, node?_erase, if_pos ⟨rfl, List.cons_ne_nil _ _⟩]
  have hne {l : Location} {node : Node} (hl : fs₀.node? l = some node) : l ≠ name :: parent := by
    rintro rfl
    rw [ho.2.1] at hl
    cases hl
  exact {
    others := hothers
    started := by simp [hq]
    ended := fun r hr => by
      rw [hp] at hr
      cases hr
    copied := fun hh => by
      rw [hp] at hh
      cases hh
    sound := by
      rw [hfiles]
      exact h.sound.erase (by simp [hn, hdir])
    working := by rw [hfiles, FileSystem.erase]
    length_le := by simp [hfiles, FileSystem.erase]
    content_eq := fun k _ => by rw [hfiles, content_erase]
    kept := fun l node hl hs => Or.inl ((hnode (hne hl)).trans hs)
    gone := fun l node hl hs => (hnode (hne hl)).trans hs
    fresh := fun l node hl => by
      by_cases he : l = name :: parent
      · rw [he, hself] at hl
        cases hl
      · exact Or.inl ((hnode he).symm.trans hl)
    fits := by
      rw [hq]
      trivial
    targets := fun j hj hji l k ho' => by
      have hij : i ≠ j := by
        rintro rfl
        rcases hji with hji | hji
        · exact hji rfl
        · simp [hp, Phase.HasCopied] at hji
      have hl := (h.owns_ne hij hholds hj ho ho').1.symm
      exact ⟨(hnode hl).trans ho'.2.2.1, by rw [hfiles, content_erase]⟩
    holds := fun hh => by simp [hq, Phase.Holds] at hh }

theorem change_of_deletes {bytes attempts : ℕ} {report : MoveReport}
    (hp : s.phase i = .deleting bytes attempts none)
    (hu : s.files.unlink (calls i).source = .ok t.files)
    (hq : t.phase i = .ended (.ok report)) : Change calls fs₀ i s t := by
  obtain ⟨parent, name, node, hr, hn, hdir, hfiles⟩ := unlink_eq_ok hu
  have hplace := h.place_eq hr
  have hcopied := h.fits i
  rw [hp] at hcopied
  obtain ⟨x, id, content, ho, hread, hcontent⟩ := hcopied
  obtain ⟨hstood, -⟩ := node?_of_readFile hread hplace
  have hnode {l : Location} (hl : l ≠ name :: parent) : t.files.node? l = s.files.node? l := by
    rw [hfiles, node?_erase, if_neg fun h => hl h.1]
  have hself : t.files.node? (name :: parent) = none := by
    rw [hfiles, node?_erase, if_pos ⟨rfl, List.cons_ne_nil _ _⟩]
  have htarget {j : ι} {l : Location} {k : FileId} (ho' : Owns fs₀ s.files (calls j) l k) :
      t.files.node? l = some (.file k) := by
    rw [hnode, ho'.2.2.1]
    rintro rfl
    exact hstood ho'.2.1
  have hsame (k : FileId) : t.files.content k = s.files.content k := by
    rw [hfiles, content_erase]
  exact {
    others := hothers
    started := by simp [hq]
    ended := fun r hr => by
      rw [hp] at hr
      cases hr
    copied := fun _ => by
      rw [hq]
      trivial
    sound := by
      rw [hfiles]
      exact h.sound.erase (by simp [hn, hdir])
    working := by rw [hfiles, FileSystem.erase]
    length_le := by simp [hfiles, FileSystem.erase]
    content_eq := fun k _ => hsame k
    kept := fun l n hl hs => by
      by_cases he : l = name :: parent
      · subst he
        rw [hn] at hs
        cases hs
        exact Or.inr ⟨hself, hdir, _, x, hq, hplace, ho.1, ho.2.1⟩
      · exact Or.inl ((hnode he).trans hs)
    gone := fun l n hl hs => by
      by_cases he : l = name :: parent
      · rw [he, hself]
      · exact (hnode he).trans hs
    fresh := fun l n hl => by
      by_cases he : l = name :: parent
      · rw [he, hself] at hl
        cases hl
      · exact Or.inl ((hnode he).symm.trans hl)
    fits := by
      rw [hq]
      exact ⟨x, id, content, ⟨ho.1, ho.2.1, htarget ho, ho.2.2.2⟩, hread,
        (hsame id).trans hcontent⟩
    targets := fun j _ _ l k ho' => ⟨htarget ho', hsame k⟩
    holds := fun _ => Or.inl (by simp [hp, Phase.Holds]) }

/-- Every step of a call is a change that it is responsible for. -/
theorem change_of_turn (ha : Apart fs₀ calls) (hs₀ : fs₀.Sound)
    (ht : Turn (calls i).mover (calls i).source (calls i).options a (s.phase i) s.files
      (t.phase i) t.files) : Change calls fs₀ i s t := by
  have hfits := h.fits i
  generalize hp : s.phase i = phase at ht hfits
  generalize hq : t.phase i = phase' at ht
  generalize hg : t.files = gs at ht
  have hsame (he : gs = s.files) (hstart : phase' ≠ .starting)
      (hended : ∀ r, phase = .ended r → phase' = .ended r)
      (hcopied : phase.HasCopied → phase'.HasCopied)
      (hfits : Fits fs₀ s.files (calls i) phase') (hholds : phase'.Holds → phase.Holds) :
      Change calls fs₀ i s t := by
    subst hg hp hq
    exact h.change_of_same_files hothers he hstart hended hcopied hfits hholds
  cases ht with
  | opens ho =>
    have hreads := h.reads_of_openRead ha hs₀ hp ho
    exact hsame rfl (by simp) (by simp) (fun hh => hh) hreads (fun hh => hh)
  | openFails _ =>
    exact hsame rfl (by simp) (by simp) (fun hh => hh) trivial (fun hh => hh)
  | creates hc =>
    subst hg
    exact h.change_of_creates hothers ha hp hc hq
  | createFails _ =>
    exact hsame rfl (by simp) (by simp) (fun hh => hh) trivial (fun hh => hh)
  | copies hr =>
    obtain ⟨hreads, loc, ho⟩ := hfits
    have hc := h.copied_of_readable hreads ho hr
    refine h.change_of_writes hothers ho (by simp [hp, Phase.Holds]) (by simp [hp, Phase.HasCopied])
      hg (by rw [hq]; split <;> simp) ?_
    rw [hq, hg]
    split
    · exact hc
    · exact hc
  | fails _ hin hout _ =>
    obtain ⟨hreads, loc, ho⟩ := hfits
    refine h.change_of_writes hothers ho (by simp [hp, Phase.Holds]) (by simp [hp, Phase.HasCopied])
      hg (by simp [hq]) ?_
    rw [hq, hg]
    refine ⟨hin ▸ hreads, loc, ho.1, ho.2.1, ?_, hout ▸ ho.2.2.2⟩
    rw [node?_setContent, ho.2.2.1, hout]
  | givesUp _ =>
    obtain ⟨hreads, loc, ho⟩ := hfits
    refine h.change_of_writes hothers ho (by simp [hp, Phase.Holds]) (by simp [hp, Phase.HasCopied])
      hg (by simp [hq]) ?_
    rw [hq, hg]
    exact ⟨loc, _, ho.1, ho.2.1, (node?_setContent loc).trans ho.2.2.1, ho.2.2.2⟩
  | retries => exact hsame rfl (by simp) (by simp) (fun hh => hh) hfits (fun _ => trivial)
  | cancels =>
    obtain ⟨-, loc, ho⟩ := hfits
    exact hsame rfl (by simp) (by simp) (fun hh => hh) ⟨loc, _, ho⟩ (fun _ => trivial)
  | removes hu =>
    subst hg
    exact h.change_of_removes hothers hp hu hq
  | removeFails _ =>
    exact hsame rfl (by simp) (by simp) (fun hh => hh.elim) trivial (fun hh => hh.elim)
  | deletes hu =>
    subst hg
    exact h.change_of_deletes hothers hp hu hq
  | deleteFails _ =>
    exact hsame rfl (by simp) (by simp) (fun _ => trivial) hfits (fun _ => trivial)
  | rests => exact hsame rfl (by simp) (by simp) (fun hh => hh) hfits (fun hh => hh)

end Change
end Safe

/-- A location where something has stood from the beginning is left alone by a step, or its entry
is removed as the source of a call that has completed its copy. -/
theorem Change.earlier_kept (h : Safe calls fs₀ s) (hs₀ : fs₀.Sound) (hc : Change calls fs₀ i s t)
    (hn : fs₀.node? loc ≠ none) : t.files.standing? loc = s.files.standing? loc ∨
      (t.files.node? loc = none ∧ fs₀.place? false (calls i).source = some loc ∧
        Copied fs₀ t.files (calls i)) := by
  obtain ⟨node, hn⟩ := Option.ne_none_iff_exists'.mp hn
  rcases h.kept loc node hn with hs | ⟨hs, -⟩
  · rcases hc.kept loc node hn hs with ht | ⟨ht, -, report, l, hp, hsource, -⟩
    · refine Or.inl (standing?_eq_of_node? (ht.trans hs.symm) fun id hid => ?_)
      obtain rfl : node = .file id := Option.some.inj (hs.symm.trans hid)
      exact hc.content_eq id (hs₀.id_lt hn)
    · have hfits := hc.fits
      rw [hp] at hfits
      exact Or.inr ⟨ht, hsource, hfits⟩
  · rw [standing?_eq_none_iff.mpr hs, standing?_eq_none_iff.mpr (hc.gone loc node hn hs)]
    exact Or.inl rfl

variable [DecidableEq ι]

theorem Safe.change_step (h : Safe calls fs₀ s) (ha : Apart fs₀ calls) (hs₀ : fs₀.Sound)
    (hu : a.unlinks = none) {cancelled : Bool} :
    Change calls fs₀ i s (s.step calls i a cancelled) := by
  refine @Safe.change_of_turn _ _ _ _ _ _ a h (fun j hj => Function.update_of_ne hj ..) ha hs₀ ?_
  simp only [State.step, Function.update_self]
  exact step_turn hu

theorem Steps.safe (ha : Apart fs₀ calls) (hs₀ : fs₀.Sound) (h : Safe calls fs₀ s)
    (hs : Steps calls s t) : Safe calls fs₀ t := by
  induction hs with
  | refl => exact h
  | tail _ hu ih => exact ih.of_change (ih.change_step ha hs₀ hu)

/-- A complete copy stays as it is, whatever the calls do. -/
theorem Steps.copy_kept (ha : Apart fs₀ calls) (hs₀ : fs₀.Sound) (h : Safe calls fs₀ s)
    (hs : Steps calls s t) (hi : (s.phase i).HasCopied) (ho : Owns fs₀ s.files (calls i) loc id) :
    (t.phase i).HasCopied ∧ t.files.node? loc = some (.file id) ∧
      t.files.content id = s.files.content id := by
  induction hs with
  | refl => exact ⟨hi, ho.2.2.1, rfl⟩
  | @tail t j a cancelled hst hu ih =>
    obtain ⟨hc, hn, he⟩ := ih
    have ht := hst.safe ha hs₀ h
    have hch : Change calls fs₀ j t (t.step calls j a cancelled) := ht.change_step ha hs₀ hu
    have hholds : (t.phase i).Holds := Phase.Holds.of_hasCopied hc
    obtain ⟨hn', he'⟩ := hch.targets i hholds (Or.inr hc) loc id ⟨ho.1, ho.2.1, hn, ho.2.2.2⟩
    refine ⟨?_, hn', he'.trans he⟩
    by_cases hij : i = j
    · subst hij
      exact hch.copied hc
    · rwa [hch.others i hij]

/-- Whatever concurrent moves do, in any order: what has stood from the beginning is removed only as
a source, by a move whose target then holds a complete copy of it. -/
theorem data_kept (hs₀ : fs₀.Sound) (ha : Apart fs₀ calls) (hs : Steps calls (start ι fs₀) s) :
    (∀ i a cancelled loc, a.unlinks = none → fs₀.node? loc ≠ none →
      (s.step calls i a cancelled).files.standing? loc = s.files.standing? loc ∨
      ((s.step calls i a cancelled).files.standing? loc = none ∧
        fs₀.place? false (calls i).source = some loc ∧ ∃ l octets content,
          fs₀.place? false (calls i).target = some l ∧
          (s.step calls i a cancelled).files.standing? l = some (.file octets) ∧
          Copies (calls i).options.compress octets content ∧
          fs₀.readFile (calls i).source = .ok content ∧
          ∀ b, s.files.standing? loc = some (.file b) → b = content)) ∧
    (∀ i, (s.phase i).HasCopied → ∃ loc octets content,
      fs₀.place? false (calls i).target = some loc ∧ fs₀.node? loc = none ∧
        Copies (calls i).options.compress octets content ∧
        fs₀.readFile (calls i).source = .ok content ∧
        ∀ t, Steps calls s t → t.files.standing? loc = some (.file octets)) ∧
    ∀ i loc, fs₀.place? false (calls i).target = some loc → fs₀.node? loc ≠ none →
      s.files.standing? loc = fs₀.standing? loc := by
  have h : Safe calls fs₀ s := hs.safe ha hs₀ (Safe.start hs₀)
  refine ⟨fun i a cancelled loc hu hn => ?_, fun i hi => ?_, fun i loc htarget hn => ?_⟩
  · have hc : Change calls fs₀ i s (s.step calls i a cancelled) := h.change_step ha hs₀ hu
    rcases hc.earlier_kept h hs₀ hn with hk | ⟨hgone, hsource, l, id, content, ho, hread, hcopy⟩
    · exact Or.inl hk
    · refine Or.inr ⟨standing?_eq_none_iff.mpr hgone, hsource, l, _, content, ho.1,
        standing?_eq_file_iff.mpr ⟨id, ho.2.2.1, rfl⟩, hcopy ▸ copies_rendering .., hread,
        fun b hb => ?_⟩
      obtain ⟨k, hk, rfl⟩ := standing?_eq_file_iff.mp hb
      obtain ⟨node, hnode⟩ := Option.ne_none_iff_exists'.mp hn
      rcases h.kept loc node hnode with hs | ⟨hs, -⟩
      · obtain rfl : node = .file k := Option.some.inj (hs.symm.trans hk)
        rw [h.content_eq k (hs₀.id_lt hnode)]
        exact (node?_of_readFile hread hsource).2 k hnode
      · rw [hs] at hk
        cases hk
  · obtain ⟨loc, id, content, ho, hread, hcopy⟩ := (h.fits i).copied hi
    refine ⟨loc, _, content, ho.1, ho.2.1, copies_rendering .., hread, fun t ht => ?_⟩
    obtain ⟨-, hn, he⟩ := ht.copy_kept ha hs₀ h hi ho
    exact standing?_eq_file_iff.mpr ⟨id, hn, he.trans hcopy⟩
  · obtain ⟨node, hnode⟩ := Option.ne_none_iff_exists'.mp hn
    rcases h.kept loc node hnode with hs | ⟨-, -, j, r, l, -, hsource, hl, hfree⟩
    · refine standing?_eq_of_node? (hs.trans hnode.symm) fun id hid => ?_
      exact h.content_eq id (hs₀.id_lt hid)
    · have hij : i ≠ j := by
        rintro rfl
        obtain rfl : loc = l := Option.some.inj (htarget.symm.trans hl)
        exact hn hfree
      exact absurd hsource (ha i j false loc hij htarget)

def twinFiles : FileSystem := ⟨[([[97]], .file 0), ([[100]], .directory)], [[1, 2]], []⟩

def twins (_ : Bool) : Call := ⟨⟨⟨[100]⟩, {}⟩, ⟨[97]⟩, ⟨false, true⟩⟩

def twinsEnd : State Bool :=
  let s := (start Bool twinFiles).step twins true {} false
  let s := s.step twins false {} false
  let s := s.step twins true {} false
  let s := s.step twins false {} false
  let s := s.step twins true {} false
  s.step twins true {} false

theorem data_kept_of_twins : twinFiles.Sound ∧ Apart twinFiles twins ∧
    Steps twins (start Bool twinFiles) twinsEnd ∧ (twinsEnd.phase true).HasCopied ∧
    twinsEnd.files.standing? [[97]] = none ∧ ∃ loc octets,
      twinFiles.place? false (twins true).target = some loc ∧
        ∀ t, Steps twins twinsEnd t → t.files.standing? loc = some (.file octets) := by
  have hs₀ : twinFiles.Sound := by decide
  have ha : Apart twinFiles twins := by
    have ht (b : Bool) : twinFiles.place? false (twins b).target = some [[97], [100]] := by
      decide +revert
    have hs (b follow : Bool) : twinFiles.place? follow (twins b).source = some [[97]] := by
      decide +revert
    intro i j follow loc _ hl hl'
    rw [ht] at hl
    rw [hs] at hl'
    exact absurd (hl.trans hl'.symm) (by decide)
  have hsteps : Steps twins (start Bool twinFiles) twinsEnd := by
    unfold twinsEnd
    repeat refine Steps.tail ?_ rfl
    exact .refl
  have hcopied : (twinsEnd.phase true).HasCopied := trivial
  obtain ⟨loc, octets, content, hl, -, -, -, hkept⟩ := (data_kept hs₀ ha hsteps).2.1 true hcopied
  exact ⟨hs₀, ha, hsteps, hcopied, by decide, loc, octets, hl, hkept⟩

end Concurrent
end CaptureExport
