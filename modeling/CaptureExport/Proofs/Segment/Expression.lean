import CaptureExport.Segment.Expression
import CaptureExport.Proofs.Segment.Pattern

/-! # Reading with an expression

A pattern reads a name as its expression does: the first reading takes the digits before the first
underscore, the shortest stream with a tail behind it, and the extension.
-/

namespace CaptureExport

open Expression

namespace Expression

variable {ts : List Term} {cs : List Char} {c : CharClass}

theorem captures?_ones (l : List Char) : captures? (l.map (.one ∘ .only) ++ ts) cs =
    (SegmentPattern.strip? l cs).bind (captures? ts) := by
  unfold captures?
  induction l generalizing cs with
  | nil => simp [SegmentPattern.strip?]
  | cons d l ih =>
    cases cs with
    | nil => simp [readings, SegmentPattern.strip?]
    | cons x cs =>
      simp only [List.map_cons, List.cons_append, readings, Function.comp_apply, CharClass.accepts,
        SegmentPattern.strip?]
      by_cases h : d = x
      · subst h
        simpa using ih
      · simp [h, Ne.symm h]

theorem captures?_digits (n : ℕ) : captures? (.times n .digit :: ts) cs =
    (SegmentPattern.stripDigits? n cs).bind (captures? ts) := by
  unfold captures?
  rw [readings]
  induction n generalizing cs with
  | zero => simp [SegmentPattern.stripDigits?]
  | succ n ih =>
    cases cs with
    | nil => simp [SegmentPattern.stripDigits?]
    | cons x cs =>
      rw [SegmentPattern.stripDigits?]
      by_cases h : Text.isDigit x
      · simpa [h, CharClass.accepts] using ih
      · simp [h, CharClass.accepts]

/-- The first reading of a lazy run is that of the first run behind which there is one. -/
theorem captures?_few : captures? (.few c :: ts) cs =
    (runs c cs).findSome? fun r => (captures? ts r.2).map (r.1 :: ·) := by
  simp only [captures?, readings, List.head?_flatMap, List.head?_map]

theorem findSome?_longer {d : Char} {l : List (List Char × List Char)} :
    (l.map fun r => (d :: r.1, r.2)).findSome? (fun r => (captures? ts r.2).map (r.1 :: ·)) =
      (l.findSome? fun r => (captures? ts r.2).map (r.1 :: ·)).map
        fun g => (d :: g.headD []) :: g.tail := by
  rw [List.map_findSome?, List.findSome?_map]
  congr 1
  funext r
  simp [Function.comp_def]

end Expression

namespace SegmentPattern

variable {p : SegmentPattern} {cs : List Char}

theorem captures?_choice (texts : List String) :
    captures? [.choice texts] cs = if String.ofList cs ∈ texts then some [cs] else none := by
  simp only [captures?, readings, List.head?_flatMap]
  induction texts with
  | nil => rfl
  | cons t texts ih =>
    rw [List.findSome?_cons, ih]
    by_cases h : t = String.ofList cs
    · subst h
      have hs : strip? cs cs = some [] := strip?_eq_some_iff.mpr (List.append_nil _).symm
      simp [hs]
    · have hne : ¬ String.ofList cs = t := Ne.symm h
      cases hs : strip? t.toList cs with
      | none => simp [hne]
      | some r =>
        have hr : r ≠ [] := by
          rintro rfl
          refine h ?_
          rw [strip?_eq_some_iff.mp hs]
          simp
        simp [hr, hne]

theorem captures?_tail (cs : List Char) :
    captures? p.tailTerms cs = (p.tail? cs).map fun e => [e.toList] := by
  have hpair {ts : List Term} := @captures?_ones ts cs ['_', '_']
  have hletter {ts : List Term} {cs : List Char} := @captures?_ones ts cs ['T']
  have hdot {ts : List Term} {cs : List Char} := @captures?_ones ts cs ['.']
  simp only [List.map_cons, List.map_nil, List.cons_append, List.nil_append,
    Function.comp_apply] at hpair hletter hdot
  simp only [tail?, Option.bind_eq_bind, Option.map_bind, Function.comp_def]
  rw [tailTerms, hpair]
  refine Option.bind_congr fun cs _ => ?_
  rw [captures?_digits]
  refine Option.bind_congr fun cs _ => ?_
  rw [hletter]
  refine Option.bind_congr fun cs _ => ?_
  rw [captures?_digits]
  refine Option.bind_congr fun cs _ => ?_
  rw [hdot]
  refine Option.bind_congr fun cs _ => ?_
  rw [captures?_choice]
  split <;> simp

theorem captures?_stream (cs : List Char) : captures? (.few .any :: p.tailTerms) cs =
    (p.stream? cs).map fun s => [s.1, s.2.toList] := by
  rw [captures?_few]
  induction cs with
  | nil => rfl
  | cons c cs ih =>
    rw [runs, stream?]
    by_cases h : c = '\n'
    · simp [h, CharClass.accepts]
    · have ha : CharClass.any.accepts c = true := by simpa [CharClass.accepts] using h
      rw [if_pos ha, if_neg h, List.findSome?_cons, captures?_tail]
      cases p.tail? cs with
      | some e => rfl
      | none =>
        rw [Option.map_none, Option.map_none, findSome?_longer, ih]
        cases p.stream? cs <;> rfl

theorem captures?_ordinal {ts : List Term} (cs : List Char) :
    captures? (.few .digit :: .one (.only '_') :: ts) cs =
      if cs.takeWhile Text.isDigit = [] then none
      else
        ((strip? ['_'] (cs.dropWhile Text.isDigit)).bind (captures? ts)).map
          (cs.takeWhile Text.isDigit :: ·) := by
  have hunderscore {cs : List Char} : captures? (.one (.only '_') :: ts) cs = _ :=
    captures?_ones ['_']
  rw [captures?_few]
  induction cs with
  | nil => rfl
  | cons d cs ih =>
    rw [runs]
    cases hd : Text.isDigit d with
    | false => simp [hd, CharClass.accepts]
    | true =>
      rw [CharClass.accepts, hd, if_pos rfl, List.findSome?_cons, findSome?_longer, ih, hunderscore,
        List.takeWhile_cons_of_pos hd, List.dropWhile_cons_of_pos hd]
      cases cs with
      | nil => simp [strip?]
      | cons c cs =>
        cases hc : Text.isDigit c with
        | true =>
          have hne : ¬ '_' = c := by
            rintro rfl
            exact absurd hc (by decide)
          have hnone : (strip? ['_'] (c :: cs)).bind (captures? ts) = none := by
            simp [strip?, hne]
          rw [hnone, List.takeWhile_cons_of_pos hc, List.dropWhile_cons_of_pos hc]
          simp only [reduceCtorEq, if_false, Option.map_none, Option.map_map]
          rfl
        | false =>
          cases hk : (strip? ['_'] (c :: cs)).bind (captures? ts) <;> simp [hc, hk]

/-- Reading a name is taking what the expression captures, if the digits are an ordinal. -/
theorem keyOfName?_eq_captures (name : List Char) :
    p.keyOfName? name = (captures? p.terms name).bind keyOfGroups? := by
  have hfront {ts : List Term} : captures? (_ ++ ts) name = _ :=
    captures?_ones ['p', 'a', 'r', 't', '_', '_']
  rw [terms, hfront, keyOfName?]
  simp only [Option.bind_eq_bind, Option.bind_assoc, captures?_ordinal]
  refine Option.bind_congr fun cs _ => ?_
  by_cases hdigits : cs.takeWhile Text.isDigit = []
  · have hordinal : ordinal? [] = none := by simp [ordinal?]
    simp [hdigits, hordinal]
  · rw [if_neg hdigits, Option.bind_map, Option.bind_assoc]
    refine Option.bind_congr fun rest _ => ?_
    rw [captures?_stream, Option.bind_map]
    refine Option.bind_congr fun s _ => ?_
    simp only [Function.comp_apply, keyOfGroups?, String.ofList_toList]
    cases ordinal? (cs.takeWhile Text.isDigit) <;> rfl

/-! ## The written expression -/

theorem escape_letter {c : Char} (h : isMeta c = false) :
    escape (String.ofList [c]) = String.ofList [c] := by
  simp [escape, h]

theorem text_letters {l : List Char} (h : ∀ c ∈ l, isMeta c = false) :
    (l.map (Term.one ∘ CharClass.only)).map Term.text = l.map fun c => String.ofList [c] := by
  rw [List.map_map]
  exact List.map_congr_left fun c hc => escape_letter (h c hc)

theorem intercalate_accepted : "|".intercalate (p.accepted.map escape) =
    "|".intercalate (p.extensions.map escape) := by
  unfold accepted
  split
  · rename_i h
    rw [List.isEmpty_iff.mp h]
    simp [escape]
  · rfl

theorem text_terms : Expression.text p.terms = p.expression := by
  have hunderscore : escape (String.ofList ['_']) = "_" := escape_letter (by decide)
  have hletter : escape (String.ofList ['T']) = "T" := escape_letter (by decide)
  have hdot : escape (String.ofList ['.']) = "\\." := by simp [escape, isMeta]
  have hletters : ∀ c ∈ ['p', 'a', 'r', 't', '_', '_'], isMeta c = false := by simp [isMeta]
  have hdigits : Nat.toDigits 10 8 = ['8'] ∧ Nat.toDigits 10 6 = ['6'] := by decide
  unfold expression
  rw [Expression.text, terms, List.map_append, text_letters hletters, tailTerms,
    ← intercalate_accepted]
  simp only [List.map_cons, Term.text, CharClass.text, hunderscore, hletter, hdot]
  apply String.toList_injective
  simp [String.join, hdigits]

end SegmentPattern
end CaptureExport
