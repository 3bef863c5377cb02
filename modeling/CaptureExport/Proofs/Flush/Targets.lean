import CaptureExport.Export.Schedule
import CaptureExport.Flush.Scan
import CaptureExport.Proofs.Segment.Doubles

/-! # Whose target it is

Segments with different names have different targets, unless one is compressed and the other one is
named like the first with the suffix of compressed files. So a segment is taken for exported because
of its own export or that of such another one, and which patterns have such segments can be seen
from their extensions.
-/

namespace CaptureExport

open FileSystem

namespace Path

variable {p q : Path}

theorem fileName?_of_alike (h : p.alike q) : p.fileName? = q.fileName? := by
  have hc : p.components = q.components := by simpa [alike] using h
  rw [fileName?, fileName?, hc]

theorem alike_self (p : Path) : p.alike p := by simp [alike]

end Path

namespace FileSystem

variable {fs : FileSystem} {dir : Path} {loc : Location} {name : Name}

theorem node?_of_hasPath_join (hd : fs.stat dir = .ok (loc, .directory))
    (hn : Path.IsFileName name) (h : fs.hasPath (dir.join name) = true) :
    IsWord name ∧ ∃ node, fs.node? (name :: loc) = some node := by
  have hw : IsWord name := by
    refine ⟨hn.ne_nil, hn.no_separator, fun hz => ?_, hn.ne_dot, hn.ne_dotDot⟩
    obtain ⟨front, hfront⟩ := @Path.bytes_join dir name hn.no_separator
    have hnul : 0 ∈ (dir.join name).bytes := by simp [hfront, hz]
    simp [hasPath, stat, locate, resolve, hnul, Except.isOk, Except.toBool] at h
  refine ⟨hw, Option.ne_none_iff_exists'.mp fun hnone => ?_⟩
  have hnode := ((hasPath_join hd hw (by simp [hnone])).mp h).2
  simp [hnone] at hnode

end FileSystem

namespace Mover

/-- A path has the file name of another one with the suffix of compressed files. -/
def Doubles (p q : Path) : Prop :=
  ∃ name, p.fileName? = some name ∧ q.fileName? = some (name ++ gzipSuffix)

/-- Of two exports one is compressed and the other one is not, and the plain source is named like
the compressed target. -/
def Clash (p : Path) (compress : Bool) (q : Path) (compress' : Bool) : Prop :=
  (compress = true ∧ compress' = false ∧ Doubles p q) ∨
    (compress = false ∧ compress' = true ∧ Doubles q p)

variable {m : Mover} {p q : Path} {name other : Name} {compress compress' : Bool}

theorem alike_targets_iff (h : p.fileName? = some name) (h' : q.fileName? = some other) :
    (m.targetFor p compress).alike (m.targetFor q compress') ↔
      targetName compress name = targetName compress' other := by
  rw [m.targetFor_eq h, m.targetFor_eq h']
  constructor
  · intro ha
    have hn := isFileName_targetName (Path.isFileName_of_fileName? h) compress
    have hn' := isFileName_targetName (Path.isFileName_of_fileName? h') compress'
    have hf := Path.fileName?_of_alike ha
    rw [hn.fileName?_join, hn'.fileName?_join] at hf
    exact Option.some.inj hf
  · intro he
    rw [he]
    exact Path.alike_self _

theorem targetName_eq_iff (h : p.fileName? = some name) (h' : q.fileName? = some other)
    (hne : name ≠ other) :
    targetName compress name = targetName compress' other ↔ Clash p compress q compress' := by
  unfold Clash Doubles
  rw [h, h']
  cases compress with
  | true => cases compress' <;> simp [targetName, hne, eq_comm]
  | false => cases compress' <;> simp [targetName, hne, eq_comm]

theorem Clash.flag_eq (h : Clash p compress q compress') : compress' = !compress := by
  rcases h with ⟨rfl, rfl, -⟩ | ⟨rfl, rfl, -⟩
  · rfl
  · rfl

end Mover

namespace Flush

open Mover

variable {fs : FileSystem} {mover : Mover} {pattern : SegmentPattern} {p q : Path}

theorem exists_fileName?_of_isSegment (h : pattern.isSegment p) :
    ∃ name, p.fileName? = some name := by
  obtain ⟨name, hname, -⟩ := SegmentName.isSegment_iff.mp h
  exact ⟨_, hname⟩

theorem isExported_iff : isExported fs mover p = true ↔
    ∃ compress, fs.hasPath (mover.targetFor p compress) = true := by
  rw [isExported, Bool.or_eq_true, Bool.exists_bool]

theorem exists_doubles_iff : (∃ p q, pattern.isSegment p ∧ pattern.isSegment q ∧ Doubles p q) ↔
    pattern.Doubled := by
  have hsuffix (name : List Char) : Utf8.encode (name ++ ".gz".toList) =
      Utf8.encode name ++ gzipSuffix := List.flatMap_append
  rw [SegmentPattern.doubled_iff]
  constructor
  · rintro ⟨p, q, hp, hq, n, hn, hn'⟩
    obtain ⟨name, hname, hkey⟩ := SegmentName.isSegment_iff.mp hp
    obtain ⟨other, hother, hkey'⟩ := SegmentName.isSegment_iff.mp hq
    obtain rfl := Option.some.inj (hn.symm.trans hname)
    have he : other = name ++ ".gz".toList := by
      refine Utf8.encode_injective (Option.some.inj ?_)
      rw [← hother, hn', hsuffix]
    refine ⟨name, fun hm => ?_, hkey, he ▸ hkey'⟩
    exact (Path.isFileName_of_fileName? hname).no_separator
      ((Utf8.mem_encode_iff (by decide)).mpr hm)
  · rintro ⟨name, hs, hkey, hkey'⟩
    obtain ⟨s, -⟩ := SegmentName.isSome_keyOfName?_iff.mp hkey
    obtain ⟨r, rfl⟩ : ∃ r, name = 'p' :: r := ⟨_, s.name_eq⟩
    have hs' : '/' ∉ 'p' :: (r ++ ".gz".toList) := by simpa using hs
    have hfile := SegmentName.fileName?_separated [] hs
    have hfile' := SegmentName.fileName?_separated [] hs'
    rw [← List.cons_append, hsuffix] at hfile'
    refine ⟨_, _, SegmentName.isSegment_iff.mpr ⟨_, hfile, hkey⟩,
      SegmentName.isSegment_iff.mpr ⟨'p' :: r ++ ".gz".toList, ?_, hkey'⟩, _, hfile, hfile'⟩
    rw [hfile', hsuffix]

/-- Segments with different names have the same target exactly when one is exported compressed and
the other one, named like the first with the suffix of compressed files, is not. -/
theorem taken_for_exported (pattern : SegmentPattern) (mover : Mover) :
    (∀ p q compress compress', pattern.isSegment p → pattern.isSegment q →
      p.fileName? ≠ q.fileName? →
        ((mover.targetFor p compress).alike (mover.targetFor q compress') ↔
          Clash p compress q compress') ∧
        (Clash p compress q compress' →
          mover.targetFor p compress = mover.targetFor q compress')) ∧
    (∀ (fs : FileSystem) loc (exported : List (Path × Bool)),
      fs.stat mover.destination = .ok (loc, .directory) →
      (∀ name node, fs.node? (name :: loc) = some node → ∃ e ∈ exported, pattern.isSegment e.1 ∧
        mover.targetFor e.1 e.2 = mover.destination.join name) →
      ∀ p, pattern.isSegment p → isExported fs mover p = true →
        ∃ e ∈ exported, e.1.fileName? = p.fileName? ∨ Clash e.1 e.2 p !e.2) ∧
    ((∃ p q, pattern.isSegment p ∧ pattern.isSegment q ∧ Doubles p q) ↔ pattern.Doubled) ∧
    (pattern.Plain →
      (pattern.Doubled ↔ ∃ e ∈ pattern.extensions, e ++ ".gz" ∈ pattern.extensions)) := by
  refine ⟨fun p q compress compress' hp hq hne => ?_, fun fs loc exported hd hput p hp hx => ?_,
    exists_doubles_iff, pattern.doubled_iff_of_plain⟩
  · obtain ⟨name, hname⟩ := exists_fileName?_of_isSegment hp
    obtain ⟨other, hother⟩ := exists_fileName?_of_isSegment hq
    have hne' : name ≠ other := fun he => hne (by rw [hname, hother, he])
    have hclash : targetName compress name = targetName compress' other ↔ _ :=
      targetName_eq_iff hname hother hne'
    refine ⟨(alike_targets_iff hname hother).trans hclash, fun h => ?_⟩
    rw [mover.targetFor_eq hname, mover.targetFor_eq hother, hclash.mpr h]
  · obtain ⟨compress, hpath⟩ := isExported_iff.mp hx
    obtain ⟨name, hname⟩ := exists_fileName?_of_isSegment hp
    have hfile := isFileName_targetName (Path.isFileName_of_fileName? hname) compress
    rw [mover.targetFor_eq hname] at hpath
    obtain ⟨hw, node, hnode⟩ := node?_of_hasPath_join hd hfile hpath
    obtain ⟨e, he, hseg, htarget⟩ := hput _ node hnode
    obtain ⟨other, hother⟩ := exists_fileName?_of_isSegment hseg
    refine ⟨e, he, or_iff_not_imp_left.mpr fun hne => ?_⟩
    have hne' : other ≠ name := fun he => hne (by rw [hname, hother, he])
    have halike : (mover.targetFor e.1 e.2).alike (mover.targetFor p compress) := by
      rw [htarget, mover.targetFor_eq hname]
      exact Path.alike_self _
    have hclash := (targetName_eq_iff hother hname hne').mp
      ((alike_targets_iff hother hname).mp halike)
    exact hclash.flag_eq ▸ hclash

/-! ### One segment for two -/

def twins : SegmentPattern := ⟨["pcap", "pcap.gz"]⟩

def twinName : Name := Utf8.ofString "part__0_e__20240101T000000.pcap"

def twinSource : Path := ⟨[47, 115]⟩

def twinMover : Mover := { destination := ⟨[47, 100]⟩ }

def twinFiles : FileSystem :=
  ⟨[([[115]], .directory), ([twinName, [115]], .file 0), ([twinName ++ gzipSuffix, [115]], .file 1),
    ([[100]], .directory)], [[1], [2]], []⟩

def twinEnd : FileSystem :=
  { twinFiles with
    entries := twinFiles.entries ++ [([twinName ++ gzipSuffix, [100]], .file 2)]
    contents := [[1], [2], [2]] }

/-- Only the second segment is exported, as it is, and the first one is taken for exported. -/
theorem taken_for_exported_of_twins :
    twins.isSegment (twinSource.join twinName) ∧
    twins.isSegment (twinSource.join (twinName ++ gzipSuffix)) ∧
    (twinMover.move (twinSource.join (twinName ++ gzipSuffix)) {} [] none twinFiles).files =
      twinEnd ∧
    isExported twinFiles twinMover (twinSource.join twinName) = false ∧
    isExported twinEnd twinMover (twinSource.join twinName) = true ∧
    Clash (twinSource.join (twinName ++ gzipSuffix)) false (twinSource.join twinName) true ∧
    (twinMover.targetFor (twinSource.join (twinName ++ gzipSuffix)) false).alike
      (twinMover.targetFor (twinSource.join twinName) true) ∧
    twins.Plain ∧ twins.Doubled := by
  have hfirst : twins.isSegment (twinSource.join twinName) := by decide +kernel
  have hsecond : twins.isSegment (twinSource.join (twinName ++ gzipSuffix)) := by decide +kernel
  have hmove : (twinMover.move (twinSource.join (twinName ++ gzipSuffix)) {} [] none
      twinFiles).files = twinEnd := by decide +kernel
  have hfree : isExported twinFiles twinMover (twinSource.join twinName) = false := by
    decide +kernel
  have hx : isExported twinEnd twinMover (twinSource.join twinName) = true := by decide +kernel
  have hne : (twinSource.join (twinName ++ gzipSuffix)).fileName? ≠
      (twinSource.join twinName).fileName? := by decide +kernel
  have hs : twinEnd.Sound := by decide +kernel
  have hstat : twinEnd.stat twinMover.destination = .ok ([[100]], .directory) := by decide +kernel
  have hput (name : Name) (node : Node) (hn : twinEnd.node? [name, [100]] = some node) :
      ∃ e ∈ [(twinSource.join (twinName ++ gzipSuffix), false)], twins.isSegment e.1 ∧
        twinMover.targetFor e.1 e.2 = twinMover.destination.join name := by
    have hm := hs.mem_iff.mpr ⟨List.cons_ne_nil _ _, hn⟩
    obtain ⟨rfl, -⟩ : name = twinName ++ gzipSuffix ∧ node = .file 2 := by
      simpa [twinEnd, twinFiles] using hm
    exact ⟨_, List.mem_singleton_self _, hsecond, by decide +kernel⟩
  have hplain : twins.Plain := ⟨by decide, by decide⟩
  obtain ⟨htargets, honly, -, hdoubled⟩ := taken_for_exported twins twinMover
  obtain ⟨e, he, hclash⟩ := honly twinEnd _ _ hstat hput _ hfirst hx
  obtain rfl := List.mem_singleton.mp he
  have hclash := hclash.resolve_left hne
  exact ⟨hfirst, hsecond, hmove, hfree, hx, hclash,
    (htargets _ _ _ _ hsecond hfirst hne).1.mpr hclash, hplain,
    (hdoubled hplain).mpr ⟨"pcap", by decide, by decide⟩⟩

end Flush
end CaptureExport
