import CaptureExport.Proofs.FileSystem.Join
import CaptureExport.Proofs.Segment.Pattern
import CaptureExport.Proofs.Text.Utf8

/-! # Naming and decoding

Decoding a written segment name gives the key it was written for, whatever the stream is called,
as long as no extension holds two underscores in a row or a separator.
-/

namespace CaptureExport

/-- The extensions are told apart from what stands before them. -/
structure SegmentPattern.Plain (p : SegmentPattern) : Prop where
  no_pair : ∀ e ∈ p.extensions, ¬ ['_', '_'] <:+: e.toList
  no_separator : ∀ e ∈ p.extensions, '/' ∉ e.toList

namespace SegmentName

/-- A name that a pattern is meant for. -/
structure Proper (p : SegmentPattern) (n : SegmentName) : Prop
    extends SegmentPattern.IsStamp n.date n.time where
  ordinal_lt : n.key.ordinal < Word.limit64
  stream_ne : n.key.stream ≠ ""
  stream_line : '\n' ∉ n.key.stream.toList
  stream_separator : '/' ∉ n.key.stream.toList
  extension_mem : n.key.extension ∈ p.extensions

def pathIn (dir : Bytes) (n : SegmentName) : Path :=
  ⟨dir ++ Path.separator :: Utf8.encode n.render⟩

variable {p : SegmentPattern} {n m : SegmentName} {dir dir' : Bytes}

theorem accepted_of_proper (hn : n.Proper p) : p.accepted = p.extensions := by
  have hne : p.extensions ≠ [] := List.ne_nil_of_mem hn.extension_mem
  simp [SegmentPattern.accepted, hne]

theorem spell_eq (digits stream date time extension : List Char) :
    spell digits stream date time extension = ['p', 'a', 'r', 't', '_', '_'] ++
      (digits ++ '_' :: (stream ++
        '_' :: '_' :: (SegmentPattern.stamp date time ++ extension))) := by
  unfold spell SegmentPattern.stamp
  simp

theorem separator_not_mem_render (hp : p.Plain) (hn : n.Proper p) : '/' ∉ n.render := by
  have hslash : ¬ Text.isDigit '/' := by decide
  have hordinal : '/' ∉ Nat.toDigits 10 n.key.ordinal := fun hm =>
    hslash (Text.isDigit_of_mem_toDigits hm)
  have hdate : '/' ∉ n.date := fun hm => hslash (hn.date_digits _ hm)
  have htime : '/' ∉ n.time := fun hm => hslash (hn.time_digits _ hm)
  have hextension := hp.no_separator _ hn.extension_mem
  simp [render, spell_eq, SegmentPattern.stamp, hordinal, hn.stream_separator, hdate, htime,
    hextension]

theorem fileName?_separated {name : List Char} (dir : Bytes) (hs : '/' ∉ 'p' :: name) :
    Path.fileName? ⟨dir ++ Path.separator :: Utf8.encode ('p' :: name)⟩ =
      some (Utf8.encode ('p' :: name)) := by
  have hseparator : Path.separator ∉ Utf8.encode ('p' :: name) :=
    fun hm => hs ((Utf8.mem_encode_iff (by decide)).mp hm)
  obtain ⟨r, hr⟩ : ∃ r, Utf8.encode ('p' :: name) = 0x70 :: r := ⟨_, rfl⟩
  refine Path.fileName?_of_separated dir ?_ hseparator ?_ ?_ <;> simp [hr, Path.dot, Path.dotDot]

theorem fileName?_pathIn (hp : p.Plain) (hn : n.Proper p) :
    (n.pathIn dir).fileName? = some (Utf8.encode n.render) := by
  have hseparator := separator_not_mem_render hp hn
  rw [pathIn]
  rw [render, spell_eq] at hseparator ⊢
  exact fileName?_separated dir hseparator

/-- A name is read as the key it was written for. -/
theorem keyOfName?_render (hp : p.Plain) (hn : n.Proper p) :
    p.keyOfName? n.render = some n.key := by
  have haccepted := accepted_of_proper hn
  have htail : p.tail? ('_' :: '_' :: (SegmentPattern.stamp n.date n.time ++
      n.key.extension.toList)) = some n.key.extension :=
    SegmentPattern.tail?_eq_some_iff.mpr
      ⟨n.date, n.time, hn.toIsStamp, rfl, haccepted ▸ hn.extension_mem⟩
  have hstream := SegmentPattern.stream?_append (haccepted ▸ hp.no_pair)
    (by simpa using hn.stream_ne) hn.stream_line htail
  have hdigits : ∀ c ∈ Nat.toDigits 10 n.key.ordinal, Text.isDigit c := fun c hc =>
    Text.isDigit_of_mem_toDigits hc
  have hunderscore : Text.isDigit '_' = false := by decide
  have hordinal : SegmentPattern.ordinal? (Nat.toDigits 10 n.key.ordinal) =
      some n.key.ordinal := by
    have hascii : (Nat.toDigits 10 n.key.ordinal).all Text.isAsciiDigit :=
      List.all_eq_true.mpr fun c hc => Text.isAsciiDigit_of_mem_toDigits hc
    rw [SegmentPattern.ordinal?, Text.digitsValue_toDigits,
      if_pos ⟨Nat.toDigits_ne_nil, hascii, hn.ordinal_lt⟩]
  have hstrip {front r : List Char} : SegmentPattern.strip? front (front ++ r) = some r :=
    SegmentPattern.strip?_eq_some_iff.mpr rfl
  rw [render, spell_eq, SegmentPattern.keyOfName?, hstrip]
  simp only [Option.bind_eq_bind, Option.bind_some]
  rw [List.takeWhile_append_of_pos hdigits, List.dropWhile_append_of_pos hdigits]
  simp [hunderscore, SegmentPattern.strip?, hstream, hordinal]

theorem key?_of_proper (hp : p.Plain) (hn : n.Proper p) :
    p.key? (n.pathIn dir) = some n.key := by
  simp [SegmentPattern.key?, fileName?_pathIn hp hn, Utf8.decode?_encode, keyOfName?_render hp hn]

/-- Decoding inverts naming in every directory: segments share a key exactly when they agree in
ordinal, stream and extension, whatever their timestamps are. -/
theorem key?_pathIn (hp : p.Plain) (hn : n.Proper p) :
    (∀ dir, p.key? (n.pathIn dir) = some n.key) ∧
      ∀ m dir dir', Proper p m → (p.key? (n.pathIn dir) = p.key? (m.pathIn dir') ↔
        n.key.ordinal = m.key.ordinal ∧ n.key.stream = m.key.stream ∧
          n.key.extension = m.key.extension) := by
  refine ⟨fun dir => key?_of_proper hp hn, fun m dir dir' hm => ?_⟩
  rw [key?_of_proper hp hn, key?_of_proper hp hm, Option.some.injEq, StreamKey.mk.injEq]

def captures : SegmentPattern := ⟨["pcap", "json"]⟩

def lookalike : SegmentName :=
  ⟨⟨3, "eth0__20240101T000000.pcap", "pcap"⟩, "20240102".toList, "030405".toList⟩

theorem key?_pathIn_of_lookalike : captures.Plain ∧ lookalike.Proper captures ∧
    captures.key? (lookalike.pathIn (Utf8.ofString "source")) =
      some ⟨3, "eth0__20240101T000000.pcap", "pcap"⟩ := by
  have hplain : captures.Plain := ⟨by decide, by decide⟩
  have hproper : lookalike.Proper captures :=
    ⟨⟨by decide, List.all_eq_true.mp (by decide), by decide, List.all_eq_true.mp (by decide)⟩,
      by decide, by decide, by decide, by decide, by decide⟩
  exact ⟨hplain, hproper, (key?_pathIn hplain hproper).1 _⟩

end SegmentName
end CaptureExport
