import CaptureExport.Proofs.Export.Turn
import CaptureExport.Proofs.FileSystem.Operations

/-! # A move between two directories

What the files are like around a move from a source directory to a destination directory, in
every phase of the move: the source is there with its content until a complete copy is, and the
target is there from its creation until the move gives up.
-/

namespace CaptureExport

open FileSystem

/-- A source and a destination directory, by path and by location. -/
structure Site where
  src : Path
  dst : Path
  srcLoc : Location
  dstLoc : Location

namespace Site

structure On (site : Site) (fs : FileSystem) : Prop where
  sound : fs.Sound
  src : fs.stat site.src = .ok (site.srcLoc, .directory)
  dst : fs.stat site.dst = .ok (site.dstLoc, .directory)

/-- Neither directory is the other one or lies in it. -/
structure Apart (site : Site) : Prop where
  dst_not_within : isWithin site.srcLoc site.dstLoc = false
  src_not_within : isWithin site.dstLoc site.srcLoc = false

end Site

/-! ## Names of targets -/

namespace Mover

def targetName (compress : Bool) (name : Name) : Name :=
  if compress then name ++ gzipSuffix else name

theorem gzipSuffix_eq : gzipSuffix = [0x2E, 0x67, 0x7A] := by decide

theorem isFileName_append_gzipSuffix {name : Name} (hn : Path.IsFileName name) :
    Path.IsFileName (name ++ gzipSuffix) := by
  have hlen : 3 < (name ++ gzipSuffix).length := by
    rw [gzipSuffix_eq, List.length_append]
    exact Nat.lt_add_of_pos_left (List.length_pos_of_ne_nil hn.ne_nil)
  constructor
  case ne_nil =>
    intro h
    simp [h] at hlen
  case no_separator =>
    intro h
    rw [gzipSuffix_eq] at h
    rcases List.mem_append.mp h with h | h
    · exact hn.no_separator h
    · exact absurd h (by decide)
  case ne_dot =>
    intro h
    rw [h] at hlen
    exact absurd hlen (by decide)
  case ne_dotDot =>
    intro h
    rw [h] at hlen
    exact absurd hlen (by decide)

theorem isFileName_targetName {name : Name} (hn : Path.IsFileName name) (compress : Bool) :
    Path.IsFileName (targetName compress name) := by
  cases compress with
  | true => exact isFileName_append_gzipSuffix hn
  | false => exact hn

theorem isWord_targetName {name : Name} (hw : IsWord name) (compress : Bool) :
    IsWord (targetName compress name) := by
  obtain ⟨hne, hs, hdot, hdotDot⟩ :=
    isFileName_targetName (Path.isFileName_of_isWord hw) compress
  refine ⟨hne, hs, fun h => ?_, hdot, hdotDot⟩
  cases compress with
  | true =>
    rw [targetName, if_pos rfl, gzipSuffix_eq] at h
    rcases List.mem_append.mp h with h | h
    · exact hw.no_nul h
    · exact absurd h (by decide)
  | false => exact hw.no_nul h

theorem targetName_injective (compress : Bool) {name other : Name}
    (h : targetName compress name = targetName compress other) : name = other := by
  cases compress with
  | true => exact List.append_cancel_right h
  | false => exact h

theorem nameFor_join {dir : Path} {name : Name} (hw : IsWord name) :
    nameFor (dir.join name) = name := by
  rw [nameFor, Path.fileName?_join hw]
  rfl

theorem targetFor_eq (m : Mover) {source : Path} {name : Name} (h : source.fileName? = some name)
    (compress : Bool) :
    m.targetFor source compress = m.destination.join (targetName compress name) := by
  have hname : nameFor source = name := by simp [nameFor, h]
  cases compress with
  | false => simp [targetFor, hname, targetName]
  | true =>
    have hn := Path.isFileName_of_fileName? h
    have hh := Path.head?_ne_separator hn.no_separator
    have hh' := Path.head?_ne_separator (isFileName_append_gzipSuffix hn).no_separator
    simp only [targetFor, hname, targetName, if_true]
    simp only [Path.join, if_neg hh, if_neg hh']
    split <;> simp

theorem targetFor_join (m : Mover) {dir : Path} {name : Name} (hw : IsWord name)
    (compress : Bool) :
    m.targetFor (dir.join name) compress = m.destination.join (targetName compress name) :=
  m.targetFor_eq (Path.fileName?_join hw) compress

end Mover

/-! ## What stays the same at a location -/

def Same (fs gs : FileSystem) (loc : Location) : Prop :=
  gs.node? loc = fs.node? loc ∧
    ∀ id, fs.node? loc = some (.file id) → gs.content id = fs.content id

variable {fs gs : FileSystem} {loc : Location} {id : FileId} {content : Bytes}

theorem Same.refl (fs : FileSystem) (loc : Location) : Same fs fs loc :=
  ⟨rfl, fun _ _ => rfl⟩

theorem Same.trans {hs : FileSystem} (h : Same fs gs loc) (h' : Same gs hs loc) : Same fs hs loc :=
  ⟨h'.1.trans h.1, fun id hid => (h'.2 id (h.1.trans hid)).trans (h.2 id hid)⟩

theorem Same.standing_eq (h : Same fs gs loc) : gs.standing? loc = fs.standing? loc :=
  standing?_eq_of_node? h.1 h.2

theorem Same.standing_file {b : Bytes} (h : Same fs gs loc)
    (hs : fs.standing? loc = some (.file b)) : gs.standing? loc = some (.file b) :=
  h.standing_eq.trans hs

theorem Site.On.of_narrows {site : Site} (h : site.On fs) (hn : Narrows gs fs)
    (hsound : gs.Sound) : site.On gs :=
  ⟨hsound, hn.stat_directory h.src, hn.stat_directory h.dst⟩

theorem same_insertFile (hs : fs.Sound) (hfree : fs.node? loc = none) {l : Location}
    (hl : l ≠ loc) : Same fs (fs.insertFile loc content).1 l := by
  refine ⟨by rw [node?_insertFile hfree, if_neg hl], fun id hid => ?_⟩
  rw [content_insertFile, if_neg (Nat.ne_of_lt (hs.id_lt hid))]

theorem same_setContent (hs : fs.Sound) (hn : fs.node? loc = some (.file id)) {l : Location}
    (hl : l ≠ loc) : Same fs (fs.setContent id content) l := by
  refine ⟨node?_setContent l, fun k hk => ?_⟩
  rw [content_setContent, if_neg]
  rintro ⟨rfl, -⟩
  exact hl (hs.eq_of_file hk hn)

theorem same_erase (fs : FileSystem) {l : Location} (hl : l ≠ loc) : Same fs (fs.erase loc) l :=
  ⟨by rw [node?_erase, if_neg fun h => hl h.1], fun _ _ => rfl⟩

/-! ## Stages -/

namespace Site

def sourceOf (site : Site) (name : Name) : Location := name :: site.srcLoc

def targetOf (site : Site) (compress : Bool) (name : Name) : Location :=
  Mover.targetName compress name :: site.dstLoc

theorem source_ne_target {site : Site} (ha : site.Apart) (compress : Bool) (name other : Name) :
    site.sourceOf name ≠ site.targetOf compress other := by
  intro h
  have hloc : site.srcLoc = site.dstLoc := (List.cons.inj h).2
  have hw := ha.dst_not_within
  rw [hloc, isWithin_self] at hw
  cases hw

end Site

namespace Move

def Opens (site : Site) (name : Name) (content : Bytes) (fs : FileSystem) (input : Opened) : Prop :=
  ∃ id, input = .file id ∧ fs.node? (site.sourceOf name) = some (.file id) ∧ fs.content id = content

/-- What the files are like around a move of a file with a content that has come to a phase. -/
def Stage (site : Site) (compress : Bool) (name : Name) (content : Bytes) (fs : FileSystem) :
    Phase → Prop
  | .starting => fs.standing? (site.sourceOf name) = some (.file content) ∧
      fs.node? (site.targetOf compress name) = none
  | .opened input => Opens site name content fs input ∧
      fs.node? (site.targetOf compress name) = none
  | .copying h _ | .waiting h _ => Opens site name content fs h.input ∧
      Admits site.dst (Mover.targetName compress name) ∧
      fs.node? (site.targetOf compress name) = some (.file h.output)
  | .removing _ => fs.standing? (site.sourceOf name) = some (.file content) ∧
      Admits site.dst (Mover.targetName compress name) ∧
      ∃ id, fs.node? (site.targetOf compress name) = some (.file id)
  | .deleting _ _ _ => fs.standing? (site.sourceOf name) = some (.file content) ∧
      Admits site.dst (Mover.targetName compress name) ∧
      fs.standing? (site.targetOf compress name) =
        some (.file (Handles.rendering compress content))
  | .ended (.ok _) => Admits site.dst (Mover.targetName compress name) ∧
      fs.standing? (site.targetOf compress name) =
        some (.file (Handles.rendering compress content))
  | .ended (.error _) => fs.standing? (site.sourceOf name) = some (.file content) ∧
      fs.node? (site.targetOf compress name) = none

variable {site : Site} {compress : Bool} {name : Name} {phase phase' : Phase} {mover : Mover}
  {options : MoveOptions} {a : Attempt} {input : Opened}

theorem Opens.standing (h : Opens site name content fs input) :
    fs.standing? (site.sourceOf name) = some (.file content) := by
  obtain ⟨id, -, hn, hc⟩ := h
  exact standing?_eq_file_iff.mpr ⟨id, hn, hc⟩

theorem Opens.same (h : Opens site name content fs input) (hs : Same fs gs (site.sourceOf name)) :
    Opens site name content gs input := by
  obtain ⟨id, hi, hn, hc⟩ := h
  exact ⟨id, hi, hs.1.trans hn, (hs.2 id hn).trans hc⟩

theorem Stage.same (h : Stage site compress name content fs phase)
    (hs : Same fs gs (site.sourceOf name)) (ht : Same fs gs (site.targetOf compress name)) :
    Stage site compress name content gs phase := by
  cases phase with
  | starting => exact ⟨hs.standing_file h.1, ht.1.trans h.2⟩
  | opened input => exact ⟨h.1.same hs, ht.1.trans h.2⟩
  | copying hd made => exact ⟨h.1.same hs, h.2.1, ht.1.trans h.2.2⟩
  | waiting hd made => exact ⟨h.1.same hs, h.2.1, ht.1.trans h.2.2⟩
  | removing e =>
    obtain ⟨hsrc, hadm, id, hn⟩ := h
    exact ⟨hs.standing_file hsrc, hadm, id, ht.1.trans hn⟩
  | deleting bytes attempts denial => exact ⟨hs.standing_file h.1, h.2.1, ht.standing_file h.2.2⟩
  | ended r =>
    cases r with
    | ok report => exact ⟨h.1, ht.standing_file h.2⟩
    | error e => exact ⟨hs.standing_file h.1, ht.1.trans h.2⟩

/-- What a step of a move between two directories does: it comes to the next stage, and leaves
alone everything but its source and its target. -/
structure Advances (site : Site) (compress : Bool) (name : Name) (content : Bytes)
    (fs gs : FileSystem) (phase : Phase) : Prop where
  sound : gs.Sound
  narrows : Narrows gs fs
  stage : Stage site compress name content gs phase
  same : ∀ loc, loc ≠ site.sourceOf name → loc ≠ site.targetOf compress name → Same fs gs loc

section Turn

variable (hon : site.On fs) (hap : site.Apart)
include hon

theorem Advances.of_same_files (h : Stage site compress name content fs phase) :
    Advances site compress name content fs fs phase :=
  ⟨hon.sound, Narrows.refl fs, h, fun _ _ _ => Same.refl fs _⟩

include hap

theorem Advances.of_creates (ho : Opens site name content fs input)
    (hadm : Admits site.dst (Mover.targetName compress name))
    (hfree : fs.node? (site.targetOf compress name) = none)
    (hgs : gs = (fs.insertFile (site.targetOf compress name) []).1) :
    Advances site compress name content fs gs
      (.copying (.opened input fs.contents.length) 0) := by
  subst hgs
  have hsame {l : Location} (hl : l ≠ site.targetOf compress name) :
      Same fs (fs.insertFile (site.targetOf compress name) []).1 l :=
    same_insertFile hon.sound hfree hl
  have hsource := hsame (Site.source_ne_target hap compress name name)
  have hdir : fs.node? site.dstLoc = some .directory := node?_of_stat hon.sound hon.dst
  refine ⟨hon.sound.insertFile hfree hdir hadm.toIsName, insertFile_narrows hfree,
    ⟨ho.same hsource, hadm, ?_⟩, fun l _ hl => hsame hl⟩
  rw [node?_insertFile hfree, if_pos rfl]
  rfl

theorem Advances.of_writes {output : FileId} {c : Bytes} (ho : Opens site name content fs input)
    (ht : fs.node? (site.targetOf compress name) = some (.file output))
    (hgs : gs = fs.setContent output c)
    (hstage : Opens site name content gs input →
      gs.standing? (site.targetOf compress name) = some (.file c) →
      gs.node? (site.targetOf compress name) = some (.file output) →
      Stage site compress name content gs phase') :
    Advances site compress name content fs gs phase' := by
  subst hgs
  have hsame {l : Location} (hl : l ≠ site.targetOf compress name) :
      Same fs (fs.setContent output c) l := same_setContent hon.sound ht hl
  have hsource := hsame (Site.source_ne_target hap compress name name)
  have hn : (fs.setContent output c).node? (site.targetOf compress name) = some (.file output) := by
    rw [node?_setContent, ht]
  have hc : (fs.setContent output c).content output = c := by
    rw [content_setContent, if_pos ⟨rfl, hon.sound.id_lt ht⟩]
  exact ⟨hon.sound.setContent, setContent_narrows,
    hstage (ho.same hsource) (standing?_eq_file_iff.mpr ⟨output, hn, hc⟩) hn,
    fun l _ hl => hsame hl⟩

theorem Opens.readable {h : Handles} {data : Bytes} (ho : Opens site name content fs h.input)
    (ht : fs.node? (site.targetOf compress name) = some (.file h.output)) :
    h.Readable fs data ↔ data = content := by
  obtain ⟨id, hin, hn, hc⟩ := ho
  have hne : id ≠ h.output := by
    rintro rfl
    exact Site.source_ne_target hap compress name name (hon.sound.eq_of_file hn ht)
  have hr := hc ▸ Handles.readable_of_ne hin hne
  constructor
  · intro hd
    exact Except.ok.inj (hd.symm.trans hr)
  · rintro rfl
    exact hr

/-- Each step of a move comes to the next stage. -/
theorem Stage.advances (hn : Admits site.src name) (hd : mover.destination = site.dst)
    (hc : options.compress = compress) (h : Stage site compress name content fs phase)
    (ht : Turn mover (site.src.join name) options a phase fs phase' gs) :
    Advances site compress name content fs gs phase' := by
  obtain rfl := hc
  have hw : IsWord (Mover.targetName options.compress name) := Mover.isWord_targetName hn.toIsWord _
  have htarget : target mover (site.src.join name) options =
      site.dst.join (Mover.targetName options.compress name) := by
    rw [target, Mover.targetFor_join _ hn.toIsWord, hd]
  cases ht with
  | @opens _ input ho =>
    obtain ⟨id, hsrc, hcon⟩ := standing?_eq_file_iff.mp h.1
    rw [openRead_join hon.src hn hsrc] at ho
    cases ho
    exact .of_same_files hon ⟨⟨id, rfl, hsrc, hcon⟩, h.2⟩
  | openFails ho =>
    obtain ⟨id, hsrc, -⟩ := standing?_eq_file_iff.mp h.1
    rw [openRead_join hon.src hn hsrc] at ho
    cases ho
  | creates hcr =>
    rw [htarget] at hcr
    obtain ⟨hadm, hfree, hgs, rfl⟩ := createNew_join_eq_ok hon.dst hw hcr
    exact .of_creates hon hap h.1 hadm hfree hgs
  | createFails _ => exact .of_same_files hon ⟨h.1.standing, h.2⟩
  | copies hr =>
    obtain ⟨ho, hadm, hx⟩ := h
    obtain rfl := (ho.readable hon hap hx).mp hr
    refine .of_writes hon hap ho hx rfl fun ho' hx' _ => ?_
    split
    · exact ⟨ho'.standing, hadm, hx'⟩
    · exact ⟨hadm, hx'⟩
  | fails _ hin hout _ =>
    obtain ⟨ho, hadm, hx⟩ := h
    refine .of_writes hon hap ho hx rfl fun ho' _ hn' => ⟨hin ▸ ho', hadm, ?_⟩
    rw [hn', hout]
  | givesUp _ =>
    obtain ⟨ho, hadm, hx⟩ := h
    exact .of_writes hon hap ho hx rfl fun ho' _ hn' => ⟨ho'.standing, hadm, _, hn'⟩
  | retries => exact .of_same_files hon h
  | cancels => exact .of_same_files hon ⟨h.1.standing, h.2.1, _, h.2.2⟩
  | removes hu =>
    obtain ⟨hsrc, hadm, id, hx⟩ := h
    rw [htarget, unlink_join hon.dst hadm hx] at hu
    cases hu
    have hsource := same_erase fs (Site.source_ne_target hap options.compress name name)
    refine ⟨hon.sound.erase_file hx, erase_narrows hx,
      ⟨hsource.standing_file hsrc, ?_⟩, fun l _ hl => same_erase fs hl⟩
    rw [node?_erase, if_pos ⟨rfl, List.cons_ne_nil _ _⟩]
  | removeFails hu =>
    obtain ⟨hsrc, hadm, id, hx⟩ := h
    rw [htarget, unlink_join hon.dst hadm hx] at hu
    cases hu
  | deletes hu =>
    obtain ⟨hsrc, hadm, hx⟩ := h
    obtain ⟨id, hnode, -⟩ := standing?_eq_file_iff.mp hsrc
    rw [unlink_join hon.src hn hnode] at hu
    cases hu
    have hsame := same_erase fs (Site.source_ne_target hap options.compress name name).symm
    refine ⟨hon.sound.erase_file hnode, erase_narrows hnode,
      ⟨hadm, hsame.standing_file hx⟩, fun l hl _ => same_erase fs hl⟩
  | deleteFails _ => exact .of_same_files hon h.2
  | rests => exact .of_same_files hon h

end Turn
end Move
end CaptureExport
