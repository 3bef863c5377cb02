import CaptureExport.Proofs.Export.Refusal
import CaptureExport.Proofs.Export.Solo
import CaptureExport.Proofs.FileSystem.Growth

/-! # What a move leaves behind

Others may remove files while a move copies, as long as they spare its target. The move itself
changes nothing but its target, which it creates where nothing stands: it writes to its own content
only, and a move that fails removes the name again. So a failed move leaves everything as others
have left it.
-/

namespace CaptureExport

open FileSystem

namespace FileSystem

/-- What has become of a file system: some of its files may have been removed, there may be files
that are new, and nothing else has changed. -/
structure Differs (removed new : Location → Prop) (fs gs : FileSystem) : Prop where
  sound : gs.Sound
  working : gs.working = fs.working
  length_le : fs.contents.length ≤ gs.contents.length
  content_eq : ∀ id, id < fs.contents.length → gs.content id = fs.content id
  kept : ∀ loc node, fs.node? loc = some node → gs.node? loc = some node ∨
    (gs.node? loc = none ∧ removed loc ∧ ∃ id, node = .file id)
  fresh : ∀ loc node, gs.node? loc = some node → fs.node? loc = some node ∨
    (fs.node? loc = none ∧ new loc ∧ ∃ id, node = .file id ∧ fs.contents.length ≤ id)

theorem resolve_of_openRead {fs : FileSystem} {p : Path} {id : FileId}
    (h : fs.openRead p = .ok (.file id)) : ∃ parent name node,
      fs.resolve false p = .ok (.entry parent name (some node), false) ∧ node ≠ .directory := by
  obtain ⟨parent, name, hr, -⟩ := openRead_eq_file h
  obtain ⟨h₀, hne, hlen, hw⟩ := resolve_eq_ok hr
  have hsep : endsInSeparator p = false := Bool.eq_false_iff.mpr fun hsep =>
    Bool.false_ne_true (walk_separator hw hsep)
  rw [resolve_of_walk h₀ hne hlen]
  rw [hsep] at hw ⊢
  rcases walk_false hw with hw' | ⟨parent', name', t, hw'⟩
  · exact ⟨parent, name, _, hw', by simp⟩
  · exact ⟨parent', name', _, hw', by simp⟩

namespace Differs

variable {removed new removed' new' : Location → Prop} {fs gs : FileSystem} {loc parent : Location}
  {name : Name} {id : FileId} {p : Path} {c : Bytes}

theorem refl (hs : fs.Sound) : Differs removed new fs fs :=
  ⟨hs, rfl, Nat.le_refl _, fun _ _ => rfl, fun _ _ h => Or.inl h, fun _ _ h => Or.inl h⟩

theorem insertFile (hs : fs.Sound)
    (hr : fs.resolve false p = .ok (.entry parent name none, false)) :
    Differs removed (· = name :: parent) fs (fs.insertFile (name :: parent) c).1 := by
  have hfree : fs.node? (name :: parent) = none := (resolve_entry hr).symm
  obtain ⟨hparent, hname⟩ := resolve_isName hs hr
  constructor
  case sound => exact hs.insertFile hfree hparent hname
  case working => rfl
  case length_le => simp [FileSystem.insertFile]
  case content_eq =>
    intro i hi
    rw [content_insertFile, if_neg (Nat.ne_of_lt hi)]
  case kept =>
    intro l node hn
    rw [node?_insertFile hfree, if_neg]
    · exact Or.inl hn
    · rintro rfl
      rw [hfree] at hn
      cases hn
  case fresh =>
    intro l node hn
    rw [node?_insertFile hfree] at hn
    split at hn
    · rename_i hl
      subst hl
      cases hn
      exact Or.inr ⟨hfree, rfl, _, rfl, Nat.le_refl _⟩
    · exact Or.inl hn

variable (h : Differs removed new fs gs)
include h

theorem mono (hr : ∀ l, removed l → removed' l) (hn : ∀ l, new l → new' l) :
    Differs removed' new' fs gs where
  sound := h.sound
  working := h.working
  length_le := h.length_le
  content_eq := h.content_eq
  kept := fun l node hl => (h.kept l node hl).imp_right fun ⟨hg, hrem, hf⟩ => ⟨hg, hr l hrem, hf⟩
  fresh := fun l node hl => (h.fresh l node hl).imp_right fun ⟨hf, hnew, hx⟩ => ⟨hf, hn l hnew, hx⟩

theorem narrows : Narrows fs gs := by
  refine ⟨fun l => ⟨fun hd => ?_, fun hd => ?_⟩, fun l t ht => ?_, h.working⟩
  · rcases h.fresh l _ hd with hd | ⟨-, -, _, hf, -⟩
    · exact hd
    · cases hf
  · rcases h.kept l _ hd with hd | ⟨-, -, _, hf⟩
    · exact hd
    · cases hf
  · rcases h.fresh l _ ht with ht | ⟨-, -, _, hf, -⟩
    · exact ht
    · cases hf

theorem narrowed : Narrows gs fs := by
  refine ⟨fun l => (h.narrows.directory l).symm, fun l t ht => ?_, h.working.symm⟩
  rcases h.kept l _ ht with ht | ⟨-, -, _, hf⟩
  · exact ht
  · cases hf

theorem resolve_eq {node : Option Node} {s : Bool}
    (hr : fs.resolve false p = .ok (.entry parent name node, s)) :
    gs.resolve false p = .ok (.entry parent name (gs.node? (name :: parent)), s) :=
  h.narrowed.resolve_eq hr (Or.inl rfl)

theorem unlink_opened (ho : fs.openRead p = .ok (.file id)) :
    ∃ loc, fs.place? false p = some loc ∧ fs.node? loc ≠ none ∧
      (gs.unlink p = .ok (gs.erase loc) ∧ gs.node? loc ≠ none ∨
        gs.unlink p = .error .missing ∧ gs.node? loc = none ∧ removed loc) := by
  obtain ⟨parent, name, node, hr, hdir⟩ := resolve_of_openRead ho
  have hn : fs.node? (name :: parent) = some node := (resolve_entry hr).symm
  have hg := h.resolve_eq hr
  refine ⟨name :: parent, place?_of_resolve hr, by simp [hn], ?_⟩
  rcases h.kept _ _ hn with hkept | ⟨hgone, hrem, -⟩
  · rw [hkept] at hg
    refine Or.inl ⟨?_, by simp [hkept]⟩
    cases node <;> simp_all [unlink]
  · rw [hgone] at hg
    exact Or.inr ⟨by simp [unlink, hg], hgone, hrem⟩

theorem standing? (hs : fs.Sound) (loc : Location) : gs.standing? loc = fs.standing? loc ∨
    (gs.standing? loc = none ∧ removed loc) ∨ (fs.standing? loc = none ∧ new loc) := by
  cases hn : fs.node? loc with
  | some node =>
    rcases h.kept loc node hn with hg | ⟨hg, hrem, -⟩
    · refine Or.inl (standing?_eq_of_node? (hg.trans hn.symm) fun id hid => ?_)
      exact h.content_eq id (hs.id_lt hid)
    · exact Or.inr (Or.inl ⟨standing?_eq_none_iff.mpr hg, hrem⟩)
  | none =>
    have hf := standing?_eq_none_iff.mpr hn
    cases hg : gs.node? loc with
    | none => exact Or.inl ((standing?_eq_none_iff.mpr hg).trans hf.symm)
    | some node =>
      rcases h.fresh loc node hg with hl | ⟨-, hnew, -⟩
      · rw [hn] at hl
        cases hl
      · exact Or.inr (Or.inr ⟨hf, hnew⟩)

theorem setContent (hid : fs.contents.length ≤ id) :
    Differs removed new fs (gs.setContent id c) where
  sound := h.sound.setContent
  working := h.working
  length_le := by simpa [FileSystem.setContent] using h.length_le
  content_eq := fun i hi => by
    have hne : i ≠ id := Nat.ne_of_lt (Nat.lt_of_lt_of_le hi hid)
    rw [content_setContent, if_neg fun hc => hne hc.1]
    exact h.content_eq i hi
  kept := fun l node hn => by simpa using h.kept l node hn
  fresh := fun l node hn => h.fresh l node (by simpa using hn)

theorem erase (hn : gs.node? loc = some (.file id)) (hl : removed loc ∨ fs.node? loc = none) :
    Differs removed (fun l => new l ∧ l ≠ loc) fs (gs.erase loc) := by
  have hne : loc ≠ [] := Sound.file_ne_nil hn
  constructor
  case sound => exact h.sound.erase_file hn
  case working => exact h.working
  case length_le => exact h.length_le
  case content_eq => exact h.content_eq
  case kept =>
    intro l node hf
    rw [node?_erase]
    by_cases he : l = loc
    · subst he
      rw [if_pos ⟨rfl, hne⟩]
      rcases h.kept l node hf with hg | ⟨-, hrem, hfile⟩
      · obtain rfl : node = .file id := Option.some.inj (hg.symm.trans hn)
        exact Or.inr ⟨rfl, hl.resolve_right (by simp [hf]), id, rfl⟩
      · exact Or.inr ⟨rfl, hrem, hfile⟩
    · rw [if_neg fun hc => he hc.1]
      exact h.kept l node hf
  case fresh =>
    intro l node hg
    rw [node?_erase] at hg
    split at hg
    · cases hg
    · rename_i he
      refine (h.fresh l node hg).imp_right fun ⟨hf, hnew, hx⟩ => ⟨hf, ⟨hnew, ?_⟩, hx⟩
      rintro rfl
      exact he ⟨rfl, hne⟩

end Differs
end FileSystem

namespace Plan

def Removes (plan : Plan) (fs : FileSystem) (loc : Location) : Prop :=
  ∃ a ∈ plan, ∃ p, a.unlinks = some p ∧ fs.place? false p = some loc

/-- Nobody else touches the target of a move: the name at its place is not removed, and neither is
any link, by way of which its path may lead there. -/
def Spares (plan : Plan) (fs : FileSystem) (target : Path) : Prop :=
  ∀ loc, plan.Removes fs loc →
    fs.place? false target ≠ some loc ∧ ∀ t, fs.node? loc ≠ some (.link t)

variable {plan made : Plan} {fs : FileSystem} {target : Path} {loc : Location}

theorem not_removes (h : ∀ a ∈ plan, a.unlinks = none) : ¬ plan.Removes fs loc := by
  rintro ⟨a, ha, p, hp, -⟩
  rw [h a ha] at hp
  cases hp

theorem spares_of_unlinks_eq_none (h : ∀ a ∈ plan, a.unlinks = none) : plan.Spares fs target :=
  fun _ hl => absurd hl (not_removes h)

def denialAfter (plan : Plan) (n : ℕ) : Option IoError := (plan.getD (n - 1) {}).denial

theorem next_drop (plan : Plan) (k : ℕ) :
    next (plan.drop k) = (plan.getD k {}, plan.drop (k + 1)) := by
  cases hk : plan.drop k with
  | nil =>
    have hlen := List.drop_eq_nil_iff.mp hk
    simp [next, List.getD_eq_getElem?_getD, List.getElem?_eq_none hlen,
      List.drop_eq_nil_iff.mpr (Nat.le_succ_of_le hlen)]
  | cons a rest =>
    have hget : plan[k]? = some a := by rw [← List.head?_drop, hk]; rfl
    have hrest : plan.drop (k + 1) = rest := by rw [← List.tail_drop, hk]; rfl
    simp [next, List.getD_eq_getElem?_getD, hget, hrest]

theorem Removes.of_sublist {rest : Plan} (h : made.Removes fs loc) (hsub : ∀ a ∈ made, a ∈ rest) :
    rest.Removes fs loc := by
  obtain ⟨a, ha, p, hp⟩ := h
  exact ⟨a, hsub a ha, p, hp⟩

end Plan

/-! ## Attempts in which others remove a name -/

def Attempt.Strikes (a : Attempt) (fs gs : FileSystem) : Prop :=
  gs = fs ∨ ∃ p loc, a.unlinks = some p ∧ fs.place? false p = some loc ∧
    fs.node? loc ≠ some .directory ∧ fs.node? loc ≠ none ∧ gs = fs.erase loc

theorem Attempt.Strikes.eq {a : Attempt} {fs gs : FileSystem} (h : a.Strikes fs gs)
    (ha : a.unlinks = none) : gs = fs := by
  rcases h with h | ⟨p, -, hp, -⟩
  · exact h
  · rw [ha] at hp
    cases hp

/-- What others do during an attempt they might as well do before it, if they do it at all. -/
theorem Handles.attempt_struck (h : Handles) (compress : Bool) (a : Attempt) (fs : FileSystem) :
    ∃ b gs, b.unlinks = none ∧ b.denial = a.denial ∧ a.Strikes fs gs ∧
      h.attempt compress a fs = h.attempt compress b gs := by
  cases hu : a.unlinks with
  | none => exact ⟨a, fs, hu, rfl, Or.inl rfl, rfl⟩
  | some p =>
    cases hgs : (fs.setContent h.output []).unlink p with
    | error e =>
      refine ⟨{ result := .fails 0 [] e, denial := a.denial }, fs, rfl, rfl, Or.inl rfl, ?_⟩
      simp [attempt, hu, hgs, rewind, write, content_rewound, overlay_nil, setContent_setContent]
    | ok gs =>
      obtain ⟨parent, name, node, hr, hn, hdir, rfl⟩ := unlink_eq_ok hgs
      have hplace : fs.place? false p = some (name :: parent) := by
        refine Narrows.place_eq ?_ (place?_of_resolve hr)
        exact ⟨fun l => by rw [node?_setContent], fun l t ht => by rwa [node?_setContent] at ht,
          rfl⟩
      rw [node?_setContent] at hn
      refine ⟨{ result := a.result, denial := a.denial }, fs.erase (name :: parent), rfl, rfl,
        Or.inr ⟨p, name :: parent, hu, hplace, by simp [hn, hdir], by simp [hn], rfl⟩, ?_⟩
      simp only [attempt, hu, rewind, hgs]
      rfl

namespace Move

variable {mover : Mover} {source : Path} {options : MoveOptions} {phase phase' : Phase}
  {fs gs hs : FileSystem} {a : Attempt}

theorem step_struck (cancelled : Bool) :
    ∃ b gs, b.denial = a.denial ∧ a.Strikes fs gs ∧ Turn mover source options b phase gs
      (step mover source options a cancelled phase fs).phase
      (step mover source options a cancelled phase fs).files := by
  cases phase with
  | copying h made =>
    obtain ⟨b, gs, hb, hdenial, hstrikes, heq⟩ := h.attempt_struck options.compress a fs
    refine ⟨b, gs, hdenial, hstrikes, ?_⟩
    have hsame : step mover source options a cancelled (.copying h made) fs =
        step mover source options b cancelled (.copying h made) gs := by
      simp only [step, copyOnce, heq, hdenial]
    rw [hsame]
    exact step_turn hb
  | _ =>
    exact ⟨{ denial := a.denial }, fs, rfl, Or.inl rfl,
      @step_turn { denial := a.denial } fs mover source options _ cancelled rfl⟩

/-- The target stands where nothing stood, and nothing else has changed but for what others have
removed. -/
structure Held (removed : Location → Prop) (fs gs : FileSystem) (target : Path) (loc : Location)
    (id : FileId) : Prop where
  resolves : ∃ parent name, loc = name :: parent ∧
    fs.resolve false target = .ok (.entry parent name none, false)
  node_eq : gs.node? loc = some (.file id)
  length_le : fs.contents.length ≤ id
  differs : Differs removed (· = loc) fs gs

namespace Held

variable {removed removed' : Location → Prop} {target : Path} {loc l : Location} {id i : FileId}

theorem of_createNew (hs : fs.Sound) (hc : fs.createNew target = .ok (gs, id)) :
    ∃ loc, Held removed fs gs target loc id := by
  obtain ⟨parent, name, hr, hfree, rfl, rfl⟩ := createNew_eq_ok hc
  refine ⟨_, ⟨parent, name, rfl, hr⟩, ?_, Nat.le_refl _, .insertFile hs hr⟩
  rw [node?_insertFile hfree, if_pos rfl]

variable (h : Held removed fs gs target loc id)
include h

theorem free : fs.node? loc = none := by
  obtain ⟨parent, name, rfl, hr⟩ := h.resolves
  exact (resolve_entry hr).symm

theorem place_eq : fs.place? false target = some loc := by
  obtain ⟨parent, name, rfl, hr⟩ := h.resolves
  exact place?_of_resolve hr

theorem mono (hr : ∀ l, removed l → removed' l) : Held removed' fs gs target loc id :=
  ⟨h.resolves, h.node_eq, h.length_le, h.differs.mono hr fun _ hl => hl⟩

theorem setContent (c : Bytes) : Held removed fs (gs.setContent id c) target loc id :=
  ⟨h.resolves, by simpa using h.node_eq, h.length_le, h.differs.setContent h.length_le⟩

theorem erase (hn : gs.node? l = some (.file i)) (hl : removed l) (hne : l ≠ loc) :
    Held removed fs (gs.erase l) target loc id := by
  refine ⟨h.resolves, ?_, h.length_le, (h.differs.erase hn (Or.inl hl)).mono (fun _ hr => hr)
    fun _ hnew => hnew.1⟩
  rw [node?_erase, if_neg fun hc => hne hc.1.symm, h.node_eq]

theorem unlink_target : gs.unlink target = .ok (gs.erase loc) ∧
    Differs removed (fun _ => False) fs (gs.erase loc) := by
  constructor
  · obtain ⟨parent, name, rfl, hr⟩ := h.resolves
    simp [unlink, h.differs.resolve_eq hr, h.node_eq]
  · exact (h.differs.erase h.node_eq (Or.inr h.free)).mono (fun _ hr => hr) fun _ hnew =>
      hnew.2 hnew.1

end Held

section Tracks

variable (removed : Location → Prop) (denied : ℕ → Option IoError) (mover : Mover) (source : Path)
  (options : MoveOptions) (fs : FileSystem)

/-- A complete copy of the source stands at the target, whose content has so many octets. -/
def Delivered (bytes : ℕ) (gs : FileSystem) : Prop :=
  ∃ loc id content, Held removed fs gs (target mover source options) loc id ∧
    fs.readFile source = .ok content ∧
    gs.content id = Handles.rendering options.compress content ∧ bytes = content.length

/-- What a move has done to the files when it is in a phase. The deletion of its source may be
denied, depending on the number of its attempts. -/
def Tracks : Phase → FileSystem → Prop
  | .starting, gs => gs = fs
  | .opened input, gs => gs = fs ∧ fs.openRead source = .ok input
  | .copying h _, gs | .waiting h _, gs => fs.openRead source = .ok h.input ∧
    ∃ loc, Held removed fs gs (target mover source options) loc h.output
  | .removing _, gs => ∃ loc id, Held removed fs gs (target mover source options) loc id
  | .deleting bytes attempts denial, gs => options.deleteOnSuccess = true ∧
    denial = denied attempts ∧ Delivered removed mover source options fs bytes gs
  | .ended (.ok r), gs => r.target = target mover source options ∧
    ∃ copied, Delivered removed mover source options fs r.bytes copied ∧
      gs = (if r.deleted then copied.after (.rm source) else copied) ∧
      r.deleted = (options.deleteOnSuccess &&
        (copied.unlinkUnless (denied r.attempts) source).isOk)
  | .ended (.error _), gs => Differs removed (fun _ => False) fs gs

end Tracks

namespace Tracks

variable {removed removed' : Location → Prop} {denied : ℕ → Option IoError} {hd : Handles}
  {data : Bytes} {loc : Location} {bytes made : ℕ}

theorem readOpened_eq {target : Path} {loc : Location} (hs : fs.Sound)
    (ho : fs.openRead source = .ok hd.input) (h : Held removed fs gs target loc hd.output) :
    (gs.setContent hd.output []).readOpened hd.input = fs.readFile source := by
  rw [readFile, ho]
  cases hin : hd.input with
  | directory => rfl
  | file i =>
    rw [hin] at ho
    obtain ⟨parent, name, -, hn⟩ := openRead_eq_file ho
    have hlt := hs.id_lt hn
    have hne : i ≠ hd.output := Nat.ne_of_lt (Nat.lt_of_lt_of_le hlt h.length_le)
    simp only [readOpened]
    rw [content_setContent, if_neg fun hc => hne hc.1, h.differs.content_eq i hlt]

theorem delivered_of_readable (hs : fs.Sound) (ho : fs.openRead source = .ok hd.input)
    (h : Held removed fs gs (target mover source options) loc hd.output)
    (hr : hd.Readable gs data) : Delivered removed mover source options fs data.length
      (gs.setContent hd.output (Handles.rendering options.compress data)) := by
  refine ⟨loc, hd.output, data, h.setContent _, (readOpened_eq hs ho h).symm.trans hr, ?_, rfl⟩
  rw [content_setContent, if_pos ⟨rfl, h.differs.sound.id_lt h.node_eq⟩]

theorem mono (h : Tracks removed denied mover source options fs phase gs)
    (hr : ∀ l, removed l → removed' l) :
    Tracks removed' denied mover source options fs phase gs := by
  have hdelivered {bytes : ℕ} {gs : FileSystem}
      (h : Delivered removed mover source options fs bytes gs) :
      Delivered removed' mover source options fs bytes gs := by
    obtain ⟨loc, id, content, hheld, hrest⟩ := h
    exact ⟨loc, id, content, hheld.mono hr, hrest⟩
  cases phase with
  | starting => exact h
  | opened input => exact h
  | copying hd made =>
    obtain ⟨ho, loc, hheld⟩ := h
    exact ⟨ho, loc, hheld.mono hr⟩
  | waiting hd made =>
    obtain ⟨ho, loc, hheld⟩ := h
    exact ⟨ho, loc, hheld.mono hr⟩
  | removing e =>
    obtain ⟨loc, id, hheld⟩ := h
    exact ⟨loc, id, hheld.mono hr⟩
  | deleting bytes attempts denial => exact ⟨h.1, h.2.1, hdelivered h.2.2⟩
  | ended r =>
    cases r with
    | ok report =>
      obtain ⟨ht, copied, hc, hrest⟩ := h
      exact ⟨ht, copied, hdelivered hc, hrest⟩
    | error e => exact h.mono hr fun _ hl => hl

theorem strike (h : Tracks removed denied mover source options fs (.copying hd made) gs)
    (ha : a.Strikes gs hs) (hremoved : ∀ p loc, a.unlinks = some p →
      fs.place? false p = some loc → removed loc ∧
        fs.place? false (target mover source options) ≠ some loc ∧
        ∀ t, fs.node? loc ≠ some (.link t)) :
    Tracks removed denied mover source options fs (.copying hd made) hs := by
  rcases ha with rfl | ⟨p, l, hp, hplace, hdir, hstands, rfl⟩
  · exact h
  · obtain ⟨ho, loc, hheld⟩ := h
    obtain ⟨hrem, hne, hlink⟩ := hremoved p l hp (hheld.differs.narrows.place_eq hplace)
    cases hn : gs.node? l with
    | none => exact absurd hn hstands
    | some node =>
      cases node with
      | directory => exact absurd hn hdir
      | link t => exact absurd (hheld.differs.narrows.link l t hn) (hlink t)
      | file i =>
        refine ⟨ho, loc, hheld.erase hn hrem ?_⟩
        rintro rfl
        exact hne hheld.place_eq

/-- Every step of the move keeps to what the phases tell. -/
theorem turn (hsound : fs.Sound) (h : Tracks removed denied mover source options fs phase gs)
    (hdenial : ∀ hd made, phase = .copying hd made → a.denial = denied (made + 1))
    (ht : Turn mover source options a phase gs phase' hs) :
    Tracks removed denied mover source options fs phase' hs := by
  cases ht with
  | opens ho =>
    obtain rfl : gs = fs := h
    exact ⟨rfl, ho⟩
  | openFails _ =>
    obtain rfl : gs = fs := h
    exact .refl hsound
  | creates hc =>
    obtain ⟨rfl, ho⟩ := h
    exact ⟨ho, Held.of_createNew hsound hc⟩
  | createFails _ =>
    obtain ⟨rfl, -⟩ := h
    exact .refl hsound
  | copies hr =>
    obtain ⟨ho, loc, hheld⟩ := h
    have hdelivered := delivered_of_readable hsound ho hheld hr
    split
    · rename_i hdelete
      exact ⟨hdelete, hdenial _ _ rfl, hdelivered⟩
    · rename_i hdelete
      exact ⟨rfl, _, hdelivered, rfl, by simp [hdelete]⟩
  | fails _ hin hout _ =>
    obtain ⟨ho, loc, hheld⟩ := h
    exact ⟨hin ▸ ho, loc, hout ▸ hheld.setContent _⟩
  | givesUp _ =>
    obtain ⟨-, loc, hheld⟩ := h
    exact ⟨loc, _, hheld.setContent _⟩
  | retries => exact h
  | cancels =>
    obtain ⟨-, loc, hheld⟩ := h
    exact ⟨loc, _, hheld⟩
  | removes hu =>
    obtain ⟨loc, id, hheld⟩ := h
    obtain ⟨hu', hdiffers⟩ := hheld.unlink_target
    obtain rfl := Except.ok.inj (hu'.symm.trans hu)
    exact hdiffers
  | removeFails hu =>
    obtain ⟨loc, id, hheld⟩ := h
    have hu' := hheld.unlink_target.1.symm.trans hu
    cases hu'
  | deletes hu =>
    obtain ⟨hdelete, hallowed, hdelivered⟩ := h
    refine ⟨rfl, gs, hdelivered, by simp [FileSystem.after, FileSystem.apply, hu], ?_⟩
    simp [← hallowed, unlinkUnless, hdelete, hu, Except.isOk, Except.toBool]
  | deleteFails hu =>
    obtain ⟨hdelete, rfl, hdelivered⟩ := h
    exact ⟨rfl, gs, hdelivered, rfl, by simp [hdelete, hu, Except.isOk, Except.toBool]⟩
  | rests => exact h

end Tracks

theorem Solo.upcoming_cases (x : Solo) :
    (∃ hd made, x.phase = .copying hd made) ∧ x.plan = x.upcoming.1 :: x.upcoming.2 ∨
      x.upcoming = ({}, x.plan) := by
  cases hp : x.phase with
  | copying hd made =>
    cases hplan : x.plan with
    | nil => exact Or.inr (by simp [upcoming, hp, hplan, Plan.next])
    | cons a rest => exact Or.inl ⟨⟨hd, made, rfl⟩, by simp [upcoming, hp, hplan, Plan.next]⟩
  | _ => exact Or.inr (by simp [upcoming, hp])

def Remains (plan rest : Plan) : Phase → Prop
  | .starting | .opened _ => rest = plan
  | .copying _ made | .waiting _ made => rest = plan.drop made
  | _ => True

theorem Solo.remains_next {plan : Plan} {x : Solo} {b : Attempt} (h : Remains plan x.plan x.phase)
    (ht : Turn mover source options b x.phase fs phase' gs) :
    Remains plan x.upcoming.2 phase' := by
  unfold upcoming
  generalize x.phase = phase at h ht
  cases ht with
  | opens _ => exact h
  | creates _ => exact h
  | copies _ => cases hdelete : options.deleteOnSuccess <;> simp [Remains]
  | fails =>
    have hrest : x.plan = plan.drop _ := h
    simp only [Remains, hrest, Plan.next_drop]
  | retries => exact h
  | _ => trivial

theorem Solo.denial_upcoming {plan : Plan} {x : Solo} (h : Remains plan x.plan x.phase)
    {hd : Handles} {made : ℕ} (hp : x.phase = .copying hd made) :
    x.upcoming.1.denial = plan.denialAfter (made + 1) := by
  rw [hp] at h
  have hrest : x.plan = plan.drop made := h
  simp only [upcoming, hp, hrest, Plan.next_drop]
  rfl

/-- What holds throughout a move whose target the others spare. -/
structure Solo.Tracked (mover : Mover) (source : Path) (options : MoveOptions) (plan : Plan)
    (fs : FileSystem) (x : Solo) : Prop where
  tracks : ∃ made, plan = made ++ x.plan ∧
    Tracks (made.Removes fs) plan.denialAfter mover source options fs x.phase x.files
  remains : Remains plan x.plan x.phase

theorem Solo.Tracked.next {plan : Plan} {x : Solo} (hsound : fs.Sound)
    (hplan : plan.Spares fs (target mover source options))
    (h : Solo.Tracked mover source options plan fs x) :
    Solo.Tracked mover source options plan fs (x.next mover source options) := by
  obtain ⟨⟨made, heq, htracks⟩, hremains⟩ := h
  obtain ⟨b, gs, hdenial, hstrikes, hturn⟩ := @step_struck mover source options x.phase x.files
    x.upcoming.1 (x.cancelledAt (x.due mover.retry.delay))
  have hdenied (hd : Handles) (k : ℕ) (hp : x.phase = .copying hd k) :
      b.denial = plan.denialAfter (k + 1) := hdenial.trans (Solo.denial_upcoming hremains hp)
  refine ⟨?_, Solo.remains_next hremains hturn⟩
  rcases x.upcoming_cases with ⟨⟨hd, k, hp⟩, hcons⟩ | hnone
  · have hmade : plan = (made ++ [x.upcoming.1]) ++ x.upcoming.2 := by simp [heq, hcons]
    refine ⟨made ++ [x.upcoming.1], hmade, ?_⟩
    have hmono : Tracks ((made ++ [x.upcoming.1]).Removes fs) plan.denialAfter mover source options
        fs x.phase x.files :=
      htracks.mono fun l hl => hl.of_sublist fun a ha => List.mem_append_left _ ha
    rw [hp] at hmono
    have hstruck := hmono.strike hstrikes fun p loc hu hplace => by
      have hrem : (made ++ [x.upcoming.1]).Removes fs loc := ⟨_, by simp, p, hu, hplace⟩
      obtain ⟨hne, hlink⟩ := hplan loc (hrem.of_sublist fun a ha => by
        rw [hmade]
        exact List.mem_append_left _ ha)
      exact ⟨hrem, hne, hlink⟩
    rw [← hp] at hstruck
    exact hstruck.turn hsound hdenied hturn
  · have ha : x.upcoming.1 = {} := congrArg Prod.fst hnone
    obtain rfl := hstrikes.eq (by rw [ha])
    refine ⟨made, ?_, htracks.turn hsound hdenied hturn⟩
    rw [heq]
    exact congrArg (made ++ ·) (congrArg Prod.snd hnone).symm

end Move

variable {fs gs : FileSystem}

/-- What stood before stands, and nothing else does, but for what others have removed. -/
structure Untouched (made : Plan) (fs gs : FileSystem) : Prop where
  working_eq : gs.working = fs.working
  standing : ∀ loc, gs.standing? loc = fs.standing? loc ∨
    (gs.standing? loc = none ∧ made.Removes fs loc)

theorem Untouched.looks {made : Plan} (h : Untouched made fs gs)
    (hmade : ∀ a ∈ made, a.unlinks = none) : gs.Looks fs := fun loc =>
  (h.standing loc).resolve_right fun ⟨_, hr⟩ => Plan.not_removes hmade hr

variable {m : Mover} {source : Path} {options : MoveOptions} {plan : Plan}
  {cancel : Option Instant} {x : Exporter} {active : Bool} {t : ExportTask}

/-- The attempts that are left are the last ones of the plan; those that have been made tell what
others may have removed. -/
theorem Mover.move_tracks (cancel : Option Instant) (hs : fs.Sound)
    (hplan : plan.Spares fs (Move.target m source options)) :
    ∃ made, plan = made ++ (m.move source options plan cancel fs).plan ∧
      Move.Tracks (made.Removes fs) plan.denialAfter m source options fs
        (.ended (m.move source options plan cancel fs).result)
        (m.move source options plan cancel fs).files := by
  obtain ⟨y, r, ⟨⟨made, heq, htracks⟩, -⟩, hr, hmove⟩ :
      ∃ y r, Move.Solo.Tracked m source options plan fs y ∧ y.phase = .ended r ∧
        m.move source options plan cancel fs = ⟨r, y.time, y.files, y.plan, y.logs⟩ :=
    Mover.move_induction ⟨⟨[], rfl, rfl⟩, rfl⟩ fun y hy _ => hy.next hs hplan
  rw [hmove]
  exact ⟨made, heq, hr ▸ htracks⟩

theorem Mover.result_ne_refused (p : Path) :
    (m.move source options plan cancel fs).result ≠ .error (.refused p) := by
  obtain ⟨y, r, hy, hr, hmove⟩ : ∃ (y : Move.Solo) (r : _), y.phase.Unrefused ∧
      y.phase = .ended r ∧
        m.move source options plan cancel fs = ⟨r, y.time, y.files, y.plan, y.logs⟩ :=
    Mover.move_induction (P := fun y => y.phase.Unrefused) trivial
      fun y hy _ => Move.step_unrefused hy
  rw [hmove]
  rintro rfl
  rw [hr] at hy
  exact hy

theorem Mover.move_untouched (hs : fs.Sound)
    (hplan : plan.Spares fs (Move.target m source options)) {e : MoveError}
    (he : (m.move source options plan cancel fs).result = .error e) :
    ∃ made, plan = made ++ (m.move source options plan cancel fs).plan ∧
      Untouched made fs (m.move source options plan cancel fs).files := by
  obtain ⟨made, heq, htracks⟩ := Mover.move_tracks cancel hs hplan
  rw [he] at htracks
  refine ⟨made, heq, htracks.working, fun loc => ?_⟩
  rcases htracks.standing? hs loc with h | h | ⟨-, h⟩
  · exact Or.inl h
  · exact Or.inr h
  · cases h

/-- A move that fails leaves every file as it was and no target of its own, and so does a task that
fails or is refused. Only what others remove while the move copies is gone. -/
theorem no_trace_of_failure (hs : fs.Sound) :
    (∀ m source options plan cancel e, plan.Spares fs (Move.target m source options) →
      (m.move source options plan cancel fs).result = .error e →
        ∃ made, plan = made ++ (m.move source options plan cancel fs).plan ∧
          Untouched made fs (m.move source options plan cancel fs).files ∧
          ((∀ a ∈ made, a.unlinks = none) →
            (m.move source options plan cancel fs).files.Looks fs)) ∧
    (∀ (x : Exporter) active t plan cancel e,
      plan.Spares fs (Move.target x.mover t.source (x.optionsFor t)) →
      (x.run active t plan cancel fs).result = .error e →
        ∃ made, plan = made ++ (x.run active t plan cancel fs).plan ∧
          Untouched made fs (x.run active t plan cancel fs).files ∧
          ((∀ a ∈ made, a.unlinks = none) → (x.run active t plan cancel fs).files.Looks fs)) ∧
    ∀ (x : Exporter) active t plan cancel p,
      (x.run active t plan cancel fs).result = .error (.refused p) →
        (x.run active t plan cancel fs).files = fs ∧
          (x.run active t plan cancel fs).plan = plan := by
  refine ⟨fun m source options plan cancel e hplan he => ?_,
    fun x active t plan cancel e hplan he => ?_, fun x active t plan cancel p he => ?_⟩
  · obtain ⟨made, heq, h⟩ := Mover.move_untouched hs hplan he
    exact ⟨made, heq, h, h.looks⟩
  · by_cases hrefused : t.isTerminal ∧ active
    · obtain ⟨hterminal, rfl⟩ := hrefused
      rw [Exporter.run_refused hterminal]
      have h : Untouched [] fs fs := ⟨rfl, fun loc => Or.inl rfl⟩
      exact ⟨[], rfl, h, h.looks⟩
    · rw [Exporter.run_eq_move hrefused] at he ⊢
      obtain ⟨made, heq, h⟩ := Mover.move_untouched hs hplan he
      exact ⟨made, heq, h, h.looks⟩
  · by_cases hrefused : t.isTerminal ∧ active
    · obtain ⟨hterminal, rfl⟩ := hrefused
      rw [Exporter.run_refused hterminal]
      exact ⟨rfl, rfl⟩
    · rw [Exporter.run_eq_move hrefused] at he
      exact absurd he (Mover.result_ne_refused p)

def strayFiles : FileSystem :=
  ⟨[([[97]], .file 0), ([[98]], .file 1), ([[100]], .directory)], [[1, 2], [3]], []⟩

def strayPlan : Plan :=
  [{ unlinks := some ⟨[98]⟩, result := .surplus [9] .missing }, { result := .panics "" }]

theorem removes_of_strayPlan {loc : Location} (h : strayPlan.Removes strayFiles loc) :
    loc = [[98]] := by
  obtain ⟨a, ha, p, hp, hplace⟩ := h
  simp only [strayPlan, List.mem_cons, List.not_mem_nil, or_false] at ha
  rcases ha with rfl | rfl
  · obtain rfl : (⟨[98]⟩ : Path) = p := Option.some.inj hp
    have hstray : strayFiles.place? false ⟨[98]⟩ = some [[98]] := by decide
    exact Option.some.inj (hplace.symm.trans hstray)
  · cases hp

theorem no_trace_of_failure_of_strayFiles : strayFiles.Sound ∧
    strayPlan.Spares strayFiles (Move.target ⟨⟨[100]⟩, {}⟩ ⟨[97]⟩ ⟨false, true⟩) ∧
    (∃ e, (Mover.move ⟨⟨[100]⟩, {}⟩ ⟨[97]⟩ ⟨false, true⟩ strayPlan none strayFiles).result =
      .error e) ∧
    ∀ loc, loc ≠ [[98]] →
      (Mover.move ⟨⟨[100]⟩, {}⟩ ⟨[97]⟩ ⟨false, true⟩ strayPlan none strayFiles).files.standing?
        loc = strayFiles.standing? loc := by
  have hs : strayFiles.Sound := by decide
  have hspares : strayPlan.Spares strayFiles
      (Move.target ⟨⟨[100]⟩, {}⟩ ⟨[97]⟩ ⟨false, true⟩) := by
    intro loc hl
    obtain rfl := removes_of_strayPlan hl
    have hnode : strayFiles.node? [[98]] = some (.file 1) := by decide
    exact ⟨by decide, by simp [hnode]⟩
  have hfails : ∃ e, (Mover.move ⟨⟨[100]⟩, {}⟩ ⟨[97]⟩ ⟨false, true⟩ strayPlan none
      strayFiles).result = .error e := ⟨_, rfl⟩
  refine ⟨hs, hspares, hfails, fun loc hne => ?_⟩
  obtain ⟨e, he⟩ := hfails
  obtain ⟨made, hmade, h, -⟩ := (no_trace_of_failure hs).1 _ _ _ _ none e hspares he
  refine (h.standing loc).resolve_right fun ⟨_, hl⟩ => hne (removes_of_strayPlan ?_)
  exact hl.of_sublist fun a ha => hmade ▸ List.mem_append_left _ ha

end CaptureExport
