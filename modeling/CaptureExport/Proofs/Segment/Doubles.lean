import CaptureExport.Proofs.Export.Stage
import CaptureExport.Proofs.Segment.Grammar

/-! # Names with the suffix of compressed files

One segment name with the suffix of compressed files can be another one. Whether a pattern has two
such names can be seen from its extensions.
-/

namespace CaptureExport

namespace SegmentPattern

variable {date time date' time' front x y : List Char}

/-- What can be read as the extension where a text stands behind a timestamp: the whole text, or
what is left of it when the stream goes on to a later timestamp. -/
def Leaves (text extension : List Char) : Prop :=
  text = extension ∨ ∃ front date time, '\n' ∉ front ∧ IsStamp date time ∧
    text = front ++ '_' :: '_' :: stamp date time ++ extension

theorem length_stamp (h : IsStamp date time) : (stamp date time).length = 16 := by
  simp [stamp, h.date_length, h.time_length]

/-- Another timestamp begins with the first one or behind it. -/
theorem leaves_of_append (h : IsStamp date time) (h' : IsStamp date' time') (hline : '\n' ∉ front)
    (he : '_' :: '_' :: stamp date time ++ x = front ++ '_' :: '_' :: stamp date' time' ++ y) :
    Leaves x y := by
  have hunderscore {l r : List Char} (hl : stamp date time = l ++ '_' :: r) : False :=
    not_mem_stamp h (by simp [hl])
  match front with
  | [] =>
    simp only [List.cons_append, List.nil_append, List.cons.injEq, true_and] at he
    have hlength := (length_stamp h).trans (length_stamp h').symm
    exact Or.inl (List.append_inj he hlength).2
  | [c] =>
    simp only [List.cons_append, List.nil_append, List.cons.injEq] at he
    obtain ⟨-, -, he⟩ := he
    obtain ⟨d, l, hdl⟩ : ∃ d l, stamp date time = d :: l :=
      List.exists_cons_of_ne_nil (by simp [stamp])
    rw [hdl, List.cons_append, List.cons.injEq] at he
    exact (hunderscore (l := []) (r := l) (by rw [hdl, he.1]; rfl)).elim
  | c :: d :: front =>
    simp only [List.cons_append, List.cons.injEq, List.append_assoc] at he
    obtain ⟨-, -, he⟩ := he
    rcases List.append_eq_append_iff.mp he with ⟨w, rfl, hx⟩ | ⟨w, hstamp, hw⟩
    · refine Or.inr ⟨w, date', time', fun hm => hline (by simp [hm]), h', ?_⟩
      simpa using hx
    · cases w with
      | nil =>
        refine Or.inr ⟨[], date', time', by simp, h', ?_⟩
        simpa using hw.symm
      | cons u w =>
        rw [List.cons_append, List.cons.injEq] at hw
        exact (hunderscore (hw.1 ▸ hstamp)).elim

end SegmentPattern

namespace SegmentName

open SegmentPattern

variable {p q : SegmentPattern} {name : List Char} {e e' : String}

namespace Split

theorem exists_shortest (s : Split p name) : ∃ t : Split p name, t.Shortest := by
  obtain ⟨t, -, ht⟩ := WellFounded.has_min (measure fun t : Split p name => t.stream.length).wf
    Set.univ ⟨s, trivial⟩
  exact ⟨t, fun u => Nat.le_of_not_lt (ht u trivial)⟩

/-- Of two splits one has its extension behind the timestamp of the other. -/
theorem leaves (s : Split p name) (t : Split q name) :
    Leaves s.extension.toList t.extension.toList ∨
      Leaves t.extension.toList s.extension.toList := by
  have hgoes {p q : SegmentPattern} (s : Split p name) (t : Split q name) (front : List Char)
      (hstream : t.stream = s.stream ++ front) (htail : s.tail = front ++ t.tail) :
      Leaves s.extension.toList t.extension.toList := by
    have hline : '\n' ∉ front := fun hm => t.stream_line (by simp [hstream, hm])
    have hcut : '_' :: '_' :: stamp s.date s.time ++ s.extension.toList =
        front ++ '_' :: '_' :: stamp t.date t.time ++ t.extension.toList := by
      simpa [tail] using htail
    exact leaves_of_append ⟨s.date_length, s.date_digits, s.time_length, s.time_digits⟩
      ⟨t.date_length, t.date_digits, t.time_length, t.time_digits⟩ hline hcut
  rcases List.append_eq_append_iff.mp (s.agree t).2 with ⟨front, h⟩ | ⟨front, h⟩
  · exact Or.inl (hgoes s t front h.1 h.2)
  · exact Or.inr (hgoes t s front h.1 h.2)

end Split

theorem isSome_keyOfName?_iff : (p.keyOfName? name).isSome ↔
    ∃ s : Split p name, Text.digitsValue s.digits < Word.limit64 := by
  rw [Option.isSome_iff_exists]
  constructor
  · rintro ⟨key, h⟩
    obtain ⟨s, -, rfl, hlt⟩ := keyOfName?_eq_some_iff.mp h
    exact ⟨s, hlt⟩
  · rintro ⟨s, hlt⟩
    obtain ⟨t, ht⟩ := s.exists_shortest
    rw [(s.agree t).1] at hlt
    exact ⟨_, keyOfName?_eq_some_iff.mpr ⟨t, ht, rfl, hlt⟩⟩

theorem isSegment_iff {path : Path} : p.isSegment path ↔
    ∃ name, path.fileName? = some (Utf8.encode name) ∧ (p.keyOfName? name).isSome := by
  simp only [isSegment, key?, Option.isSome_iff_exists, Option.bind_eq_bind,
    Option.bind_eq_some_iff, Utf8.decode?_eq_some_iff]
  constructor
  · rintro ⟨key, _, hfile, name, rfl, h⟩
    exact ⟨name, hfile, key, h⟩
  · rintro ⟨name, hfile, key, h⟩
    exact ⟨key, _, hfile, name, rfl, h⟩

/-! ## Names that differ in the suffix -/

namespace Split

def extend (s : Split p name) (suffix : String) :
    Split ⟨[s.extension ++ suffix]⟩ (name ++ suffix.toList) :=
  { s with
    extension := s.extension ++ suffix
    spelled := by
      conv_lhs => rw [s.spelled]
      simp [spell_eq]
    accepted := List.mem_singleton_self _ }

theorem extension_eq (s : Split ⟨[e]⟩ name) : s.extension = e :=
  List.mem_singleton.mp s.accepted

theorem exists_shorter {suffix : String} (s : Split ⟨[e ++ suffix]⟩ name) (he : e ∈ p.accepted) :
    ∃ base, name = base ++ suffix.toList ∧ ∃ t : Split p base, t.digits = s.digits := by
  refine ⟨spell s.digits s.stream s.date s.time e.toList, ?_,
    { s with extension := e, spelled := rfl, accepted := he }, rfl⟩
  conv_lhs => rw [s.spelled, s.extension_eq]
  simp [spell_eq]

theorem exists_accepted (s : Split ⟨[e]⟩ name) (he : e ∈ p.accepted) :
    ∃ t : Split p name, t.digits = s.digits :=
  ⟨{ s with accepted := s.extension_eq.symm ▸ he }, rfl⟩

end Split

theorem exists_splits (h : Leaves e.toList e'.toList) (hs : '/' ∉ e.toList) :
    ∃ name, '/' ∉ name ∧ ∃ (s : Split ⟨[e]⟩ name) (t : Split ⟨[e']⟩ name),
      s.digits = ['0'] ∧ t.digits = ['0'] := by
  obtain ⟨day, hour, hstamp, hslash, hbreak⟩ : ∃ day hour, IsStamp day hour ∧
      '/' ∉ stamp day hour ∧ '\n' ∉ stamp day hour :=
    ⟨"20240101".toList, "000000".toList, ⟨by decide, List.all_eq_true.mp (by decide), by decide,
      List.all_eq_true.mp (by decide)⟩, by decide, by decide⟩
  have hzero : ∀ c ∈ ['0'], Text.isAsciiDigit c = true := List.all_eq_true.mp (by decide)
  let s : Split ⟨[e]⟩ (spell ['0'] ['a'] day hour e.toList) :=
    ⟨['0'], ['a'], day, hour, e, rfl, by decide, hzero, by decide, by decide, hstamp.date_length,
      hstamp.date_digits, hstamp.time_length, hstamp.time_digits, List.mem_singleton_self e⟩
  refine ⟨_, by simp [spell_eq, hslash, hs], s, ?_⟩
  rcases h with h | ⟨front, date, time, hline, hlater, h⟩
  · exact ⟨{ s with
      extension := e', spelled := by simp only [h, s], accepted := List.mem_singleton_self e' },
      rfl, rfl⟩
  · refine ⟨⟨['0'], 'a' :: '_' :: '_' :: stamp day hour ++ front, date, time, e', ?_, by decide,
      hzero, by simp, ?_, hlater.date_length, hlater.date_digits, hlater.time_length,
      hlater.time_digits, List.mem_singleton_self e'⟩, rfl, rfl⟩
    · simp [spell_eq, h]
    · simp [hbreak, hline]

end SegmentName

namespace SegmentPattern

open SegmentName

/-- Of two extensions of a pattern one is read where the other one stands with the suffix of
compressed files. -/
def Doubled (p : SegmentPattern) : Prop :=
  ∃ e ∈ p.accepted, ∃ e' ∈ p.accepted, '/' ∉ e.toList ∧ '/' ∉ e'.toList ∧
    (Leaves (e ++ ".gz").toList e'.toList ∨ Leaves e'.toList (e ++ ".gz").toList)

variable {p : SegmentPattern}

theorem doubled_iff : p.Doubled ↔ ∃ name, '/' ∉ name ∧ (p.keyOfName? name).isSome ∧
    (p.keyOfName? (name ++ ".gz".toList)).isSome := by
  have hzero : Text.digitsValue ['0'] < Word.limit64 := by decide
  constructor
  · rintro ⟨e, he, e', he', hs, hs', h⟩
    obtain ⟨name, hname, s, t, hdigits, hdigits'⟩ : ∃ name, '/' ∉ name ∧
        ∃ (s : Split ⟨[e ++ ".gz"]⟩ name) (t : Split ⟨[e']⟩ name),
          s.digits = ['0'] ∧ t.digits = ['0'] := by
      rcases h with h | h
      · exact exists_splits h (by simpa using hs)
      · obtain ⟨name, hname, t, s, ht, hs⟩ := exists_splits h hs'
        exact ⟨name, hname, s, t, hs, ht⟩
    obtain ⟨t', ht'⟩ := t.exists_accepted he'
    obtain ⟨base, rfl, s', hs'⟩ := s.exists_shorter he
    refine ⟨base, fun hm => hname (List.mem_append_left _ hm), ?_, ?_⟩
    · exact isSome_keyOfName?_iff.mpr ⟨s', by rwa [hs', hdigits]⟩
    · exact isSome_keyOfName?_iff.mpr ⟨t', by rwa [ht', hdigits']⟩
  · rintro ⟨name, hname, h, h'⟩
    obtain ⟨s, -⟩ := isSome_keyOfName?_iff.mp h
    obtain ⟨t, -⟩ := isSome_keyOfName?_iff.mp h'
    refine ⟨s.extension, s.accepted, t.extension, t.accepted, fun hm => ?_, fun hm => ?_,
      (s.extend ".gz").leaves t⟩
    · rw [s.spelled] at hname
      exact hname (by simp [spell_eq, hm])
    · have hmem : '/' ∈ name ++ ".gz".toList := by
        rw [t.spelled]
        simp [spell_eq, hm]
      simp [hname] at hmem

theorem eq_of_leaves {x y : List Char} (hx : ¬ ['_', '_'] <:+: x) (h : Leaves x y) : x = y := by
  rcases h with h | ⟨front, date, time, -, -, rfl⟩
  · exact h
  · exact absurd ⟨front, stamp date time ++ y, by simp⟩ hx

theorem doubled_iff_of_plain (hp : p.Plain) :
    p.Doubled ↔ ∃ e ∈ p.extensions, e ++ ".gz" ∈ p.extensions := by
  have hpair {e : String} (he : e ∈ p.accepted) : ¬ ['_', '_'] <:+: e.toList := by
    rcases mem_accepted.mp he with he | ⟨-, rfl⟩
    · exact hp.no_pair e he
    · simp
  have hpair' {e : String} (he : e ∈ p.accepted) : ¬ ['_', '_'] <:+: (e ++ ".gz").toList := by
    rw [String.toList_append, ← List.reverse_infix, List.reverse_append]
    have hend : '_' ∉ ".gz".toList.reverse := by decide
    intro hm
    have hm' : ['_', '_'].reverse <:+: e.toList.reverse := (pair_infix_append_iff hend).mp hm
    exact hpair he (List.reverse_infix.mp hm')
  constructor
  · rintro ⟨e, he, e', he', -, -, h⟩
    have heq : e ++ ".gz" = e' := by
      apply String.toList_injective
      rcases h with h | h
      · exact eq_of_leaves (hpair' he) h
      · exact (eq_of_leaves (hpair he') h).symm
    subst heq
    rcases mem_accepted.mp he' with hmem | ⟨-, hempty⟩
    · refine ⟨e, (mem_accepted.mp he).resolve_right fun h => ?_, hmem⟩
      simp [h.1] at hmem
    · exact absurd (congrArg String.toList hempty) (by simp)
  · rintro ⟨e, he, he'⟩
    exact ⟨e, mem_accepted.mpr (Or.inl he), _, mem_accepted.mpr (Or.inl he'), hp.no_separator e he,
      hp.no_separator _ he', Or.inl (Or.inl rfl)⟩

end SegmentPattern
end CaptureExport
