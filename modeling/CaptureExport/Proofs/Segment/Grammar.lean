import CaptureExport.Proofs.Segment.Expression
import CaptureExport.Proofs.Segment.Naming
import CaptureExport.Proofs.Text.Reading

/-! # The grammar of segment names

A name stands for a key exactly when it can be split into the parts of a segment name, and of all
ways to split it that with the shortest stream counts. Extensions stand for themselves, and it does
not matter in which order or how often they are listed.
-/

namespace CaptureExport

namespace SegmentPattern

variable {p q : SegmentPattern} {cs stream : List Char} {extension : String}

theorem stream?_eq_some_iff : p.stream? cs = some (stream, extension) ↔
    stream ≠ [] ∧ '\n' ∉ stream ∧ ∃ tail, cs = stream ++ tail ∧ p.tail? tail = some extension ∧
      ∀ front back, cs = front ++ back → front ≠ [] → (p.tail? back).isSome →
        stream.length ≤ front.length := by
  induction cs generalizing stream with
  | nil =>
    simp only [stream?, reduceCtorEq, false_iff]
    rintro ⟨hne, -, tail, h, -⟩
    exact hne (List.append_eq_nil_iff.mp h.symm).1
  | cons c cs ih =>
    rw [stream?]
    split
    · rename_i hc
      simp only [reduceCtorEq, false_iff]
      rintro ⟨hne, hline, tail, h, -⟩
      obtain ⟨d, s, rfl⟩ := List.exists_cons_of_ne_nil hne
      exact hline ((List.cons.inj h).1 ▸ hc ▸ List.mem_cons_self)
    rename_i hc
    split
    · rename_i found htail
      constructor
      · intro h
        obtain ⟨rfl, rfl⟩ := Prod.mk.inj (Option.some.inj h)
        refine ⟨by simp, by simpa using Ne.symm hc, cs, rfl, htail, fun front _ _ hne _ => ?_⟩
        exact List.length_pos_of_ne_nil hne
      · rintro ⟨hne, -, tail, h, htail', hshortest⟩
        obtain ⟨d, s, rfl⟩ := List.exists_cons_of_ne_nil hne
        rw [List.cons_append, List.cons.injEq] at h
        obtain ⟨rfl, rfl⟩ := h
        have hle := hshortest [c] (s ++ tail) rfl (by simp) (Option.isSome_of_eq_some htail)
        obtain rfl : s = [] := List.eq_nil_of_length_eq_zero (by simpa using hle)
        rw [List.nil_append, htail'] at htail
        rw [Option.some.inj htail]
    · rename_i hnone
      rw [Option.map_eq_some_iff]
      constructor
      · rintro ⟨⟨s, e⟩, hs, h⟩
        obtain ⟨rfl, rfl⟩ := Prod.mk.inj h
        obtain ⟨hne, hline, tail, rfl, htail, hshortest⟩ := ih.mp hs
        refine ⟨by simp, by simpa [hline] using Ne.symm hc, tail, rfl, htail, ?_⟩
        rintro (_ | ⟨d, front⟩) back h hfront hback
        · exact absurd rfl hfront
        · rw [List.cons_append, List.cons.injEq] at h
          obtain ⟨-, h⟩ := h
          have hfront' : front ≠ [] := by
            rintro rfl
            rw [List.nil_append] at h
            simp [← h, hnone] at hback
          exact Nat.succ_le_succ (hshortest front back h hfront' hback)
      · rintro ⟨hne, hline, tail, h, htail, hshortest⟩
        obtain ⟨d, s, rfl⟩ := List.exists_cons_of_ne_nil hne
        rw [List.cons_append, List.cons.injEq] at h
        obtain ⟨rfl, rfl⟩ := h
        refine ⟨(s, extension), ih.mpr ⟨?_, fun hm => hline (List.mem_cons_of_mem _ hm), tail, rfl,
          htail, fun front back h' _ hback => ?_⟩, rfl⟩
        · rintro rfl
          rw [List.nil_append, htail] at hnone
          cases hnone
        · have hlong := hshortest (c :: front) back (by rw [h']; rfl) (by simp) hback
          exact Nat.le_of_succ_le_succ hlong

/-! ## The same extensions -/

theorem mem_accepted {e : String} :
    e ∈ p.accepted ↔ e ∈ p.extensions ∨ (p.extensions = [] ∧ e = "") := by
  unfold accepted
  split
  · rename_i h
    simp [List.isEmpty_iff.mp h]
  · rename_i h
    have hne : p.extensions ≠ [] := fun he => h (by simp [he])
    simp [hne]

variable (h : ∀ e, e ∈ q.extensions ↔ e ∈ p.extensions)
include h

theorem tail?_congr : q.tail? = p.tail? := by
  have hnil : q.extensions = [] ↔ p.extensions = [] := by
    simp only [List.eq_nil_iff_forall_not_mem, h]
  have haccepted (e : String) : e ∈ q.accepted ↔ e ∈ p.accepted := by
    rw [mem_accepted, mem_accepted, h, hnil]
  ext cs extension
  rw [tail?_eq_some_iff, tail?_eq_some_iff]
  simp only [haccepted]

theorem stream?_congr : q.stream? = p.stream? := by
  ext cs s
  obtain ⟨stream, extension⟩ := s
  rw [stream?_eq_some_iff, stream?_eq_some_iff, tail?_congr h]

theorem key?_congr : q.key? = p.key? := by
  have hname : q.keyOfName? = p.keyOfName? := by
    funext name
    simp only [keyOfName?, stream?_congr h]
  funext path
  simp only [key?, hname]

end SegmentPattern

namespace SegmentName

open SegmentPattern

variable {p q : SegmentPattern} {name : List Char} {key : StreamKey}

namespace Split

def tail (s : Split p name) : List Char :=
  '_' :: '_' :: stamp s.date s.time ++ s.extension.toList

/-- A split whose stream is as short as that of any other. -/
def Shortest (s : Split p name) : Prop := ∀ t : Split p name, s.stream.length ≤ t.stream.length

theorem name_eq (s : Split p name) :
    name = ['p', 'a', 'r', 't', '_', '_'] ++ (s.digits ++ '_' :: (s.stream ++ s.tail)) := by
  refine s.spelled.trans ((spell_eq ..).trans ?_)
  simp [tail]

theorem tail?_eq (s : Split p name) : p.tail? s.tail = some s.extension :=
  tail?_eq_some_iff.mpr ⟨s.date, s.time,
    ⟨s.date_length, s.date_digits, s.time_length, s.time_digits⟩, rfl, s.accepted⟩

theorem span_eq (s : Split p name) (r : List Char) :
    (s.digits ++ '_' :: r).takeWhile Text.isDigit = s.digits ∧
      (s.digits ++ '_' :: r).dropWhile Text.isDigit = '_' :: r := by
  have hdigits : ∀ c ∈ s.digits, Text.isDigit c := fun c hc =>
    Text.isDigit_of_isAsciiDigit (s.digits_ascii c hc)
  have hunderscore : Text.isDigit '_' = false := by decide
  rw [List.takeWhile_append_of_pos hdigits, List.dropWhile_append_of_pos hdigits]
  simp [hunderscore]

/-- Two splits of a name have the same digits, and the same text behind them, also with the
extensions of different patterns. -/
theorem agree (s : Split p name) (t : Split q name) :
    s.digits = t.digits ∧ s.stream ++ s.tail = t.stream ++ t.tail := by
  have h := List.append_cancel_left (s.name_eq.symm.trans t.name_eq)
  obtain ⟨htake, hdrop⟩ := s.span_eq (s.stream ++ s.tail)
  rw [h] at htake hdrop
  obtain ⟨htake', hdrop'⟩ := t.span_eq (t.stream ++ t.tail)
  exact ⟨htake.symm.trans htake', (List.cons.inj (hdrop.symm.trans hdrop')).2⟩

theorem exists_of_tail? {digits stream tail : List Char} {extension : String}
    (hname : name = ['p', 'a', 'r', 't', '_', '_'] ++ (digits ++ '_' :: (stream ++ tail)))
    (hdigits : digits ≠ []) (hascii : ∀ c ∈ digits, Text.isAsciiDigit c) (hne : stream ≠ [])
    (hline : '\n' ∉ stream) (htail : p.tail? tail = some extension) :
    ∃ s : Split p name, s.digits = digits ∧ s.stream = stream ∧ s.extension = extension ∧
      s.tail = tail := by
  obtain ⟨date, time, hstamp, rfl, hmem⟩ := tail?_eq_some_iff.mp htail
  have hspelled : name = spell digits stream date time extension.toList := by
    rw [hname, spell_eq]
    simp
  exact ⟨⟨digits, stream, date, time, extension, hspelled, hdigits, hascii, hne, hline,
    hstamp.date_length, hstamp.date_digits, hstamp.time_length, hstamp.time_digits, hmem⟩,
    rfl, rfl, rfl, rfl⟩

theorem Shortest.stream?_eq {s : Split p name} (h : s.Shortest) :
    p.stream? (s.stream ++ s.tail) = some (s.stream, s.extension) := by
  refine stream?_eq_some_iff.mpr ⟨s.stream_ne, s.stream_line, s.tail, rfl, s.tail?_eq, ?_⟩
  intro front back hcut hne hback
  by_contra hlt
  -- a shorter stream would be the beginning of this one, and make a split
  obtain ⟨extension, hback⟩ := Option.isSome_iff_exists.mp hback
  have hfront : front <+: s.stream :=
    List.prefix_of_prefix_length_le (hcut.symm ▸ List.prefix_append front back)
      (List.prefix_append _ _) (Nat.le_of_not_le hlt)
  obtain ⟨t, -, ht, -, -⟩ := exists_of_tail? (hcut ▸ s.name_eq) s.digits_ne s.digits_ascii hne
    (fun hm => s.stream_line (hfront.subset hm)) hback
  exact hlt (ht ▸ h t)

end Split

/-- A name is read exactly when it can be split. The key is that of the split with the shortest
stream. -/
theorem keyOfName?_eq_some_iff : p.keyOfName? name = some key ↔
    ∃ s : Split p name, s.Shortest ∧ s.key = key ∧ key.ordinal < Word.limit64 := by
  constructor
  · intro h
    simp only [keyOfName?, Option.bind_eq_bind, Option.bind_eq_some_iff, strip?_eq_some_iff] at h
    obtain ⟨cs, rfl, rest, hrest, ⟨stream, extension⟩, hstream, ordinal, hordinal, h⟩ := h
    obtain ⟨hne, hline, tail, rfl, htail, hshortest⟩ := stream?_eq_some_iff.mp hstream
    rw [ordinal?, Option.ite_none_right_eq_some, Option.some.injEq] at hordinal
    obtain ⟨⟨hdigits, hascii, hlt⟩, rfl⟩ := hordinal
    have hcs : cs = cs.takeWhile Text.isDigit ++ '_' :: (stream ++ tail) :=
      (List.takeWhile_append_dropWhile ..).symm.trans (congrArg _ hrest)
    obtain ⟨s, hsdigits, rfl, rfl, rfl⟩ := Split.exists_of_tail? (congrArg _ hcs) hdigits
      (List.all_eq_true.mp hascii) hne hline htail
    rw [← hsdigits] at h hlt
    obtain rfl := Option.some.inj h
    exact ⟨s, fun t => hshortest t.stream t.tail (s.agree t).2 t.stream_ne
      (Option.isSome_of_eq_some t.tail?_eq), rfl, hlt⟩
  · rintro ⟨s, hshortest, rfl, hlt⟩
    have hordinal : ordinal? s.digits = some (Text.digitsValue s.digits) :=
      if_pos ⟨s.digits_ne, List.all_eq_true.mpr s.digits_ascii, hlt⟩
    obtain ⟨htake, hdrop⟩ := s.span_eq (s.stream ++ s.tail)
    simp only [keyOfName?, Option.bind_eq_bind, Option.bind_eq_some_iff]
    refine ⟨_, strip?_eq_some_iff.mpr s.name_eq, s.stream ++ s.tail, ?_, _, hshortest.stream?_eq,
      _, ?_, rfl⟩
    · rw [hdrop]
      rfl
    · rw [htake, hordinal]

/-- A path stands for a key exactly when its file name can be split, with an ordinal below `2 ^ 64`.
The key is that of the split with the shortest stream, as in the written expression. -/
theorem key?_grammar (p : SegmentPattern) :
    (∀ path key, p.key? path = some key ↔
      ∃ name, path.fileName? = some (Utf8.encode name) ∧
        ∃ s : Split p name, s.Shortest ∧ s.key = key ∧ key.ordinal < Word.limit64) ∧
    (∀ q : SegmentPattern, (∀ e, e ∈ q.extensions ↔ e ∈ p.extensions) → q.key? = p.key?) ∧
    Expression.text p.terms = p.expression ∧
      ∀ name, p.keyOfName? name = (Expression.captures? p.terms name).bind keyOfGroups? := by
  refine ⟨fun path key => ?_, fun q h => key?_congr h, text_terms, keyOfName?_eq_captures⟩
  simp only [SegmentPattern.key?, Option.bind_eq_bind, Option.bind_eq_some_iff,
    Utf8.decode?_eq_some_iff, keyOfName?_eq_some_iff]
  constructor
  · rintro ⟨_, hfile, name, rfl, hsplit⟩
    exact ⟨name, hfile, hsplit⟩
  · rintro ⟨name, hfile, hsplit⟩
    exact ⟨_, hfile, name, rfl, hsplit⟩

/-! ### Two ways to split a name -/

def nested : SegmentPattern := ⟨["pcap", "x__20240101T000000.pcap"]⟩

def nestedPath : Path :=
  .ofString "source/part__007_a__20240101T000000.x__20240101T000000.pcap"

/-- Both extensions end the name, and the stream is the shorter one, in whatever order they are
listed. -/
theorem key?_grammar_of_nested :
    (∀ e, e ∈ ["x__20240101T000000.pcap", "pcap", "pcap"] ↔ e ∈ nested.extensions) ∧
    SegmentPattern.key? ⟨["x__20240101T000000.pcap", "pcap", "pcap"]⟩ nestedPath =
      some ⟨7, "a", "x__20240101T000000.pcap"⟩ ∧
    ∃ name, nestedPath.fileName? = some (Utf8.encode name) ∧ ∃ s : Split nested name,
      s.Shortest ∧ s.key = ⟨7, "a", "x__20240101T000000.pcap"⟩ := by
  have hkey : nested.key? nestedPath = some ⟨7, "a", "x__20240101T000000.pcap"⟩ := by
    decide +kernel
  have hsame : ∀ e, e ∈ ["x__20240101T000000.pcap", "pcap", "pcap"] ↔ e ∈ nested.extensions := by
    simp [nested, or_comm]
  obtain ⟨hgrammar, hcongr, -, -⟩ := key?_grammar nested
  obtain ⟨name, hfile, s, hshortest, hs, -⟩ := (hgrammar nestedPath _).mp hkey
  exact ⟨hsame, hcongr ⟨_⟩ hsame ▸ hkey, name, hfile, s, hshortest, hs⟩

end SegmentName
end CaptureExport
