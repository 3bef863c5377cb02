import CaptureExport.Proofs.Export.Interleaving

/-! # Owners of new files

A file that is new at some time belongs to a job which has created it as its target and not removed
it. Once every job has ended, each of these jobs has succeeded, and its file is a complete copy; a
job that has failed has left nothing.
-/

namespace CaptureExport

open FileSystem

variable {fs gs : FileSystem} {loc : Location} {id : FileId} {p : Path}

theorem FileSystem.unlink_of_place (hsep : endsInSeparator p = false)
    (hp : fs.place? false p = some loc) (hn : fs.node? loc = some (.file id)) :
    fs.unlink p = .ok (fs.erase loc) := by
  obtain ⟨parent, name, s, rfl, hr⟩ := place?_eq_some hp
  obtain rfl : s = false := (walk_false_separator (resolve_eq_ok hr).2.2.2).trans hsep
  simp [unlink, hr, hn]

namespace Move

variable {mover : Mover} {source : Path} {options : MoveOptions} {a : Attempt}
  {phase phase' : Phase}

theorem Turn.holds (h : Turn mover source options a phase fs phase' gs) (hkeeps : phase.Keeps)
    (hdelete : options.deleteOnSuccess = false)
    (hsep : endsInSeparator (target mover source options) = false)
    (hplace : fs.place? false (target mover source options) = some loc)
    (hn : gs.node? loc = some (.file id)) (hheld : phase.Holds ∨ fs.node? loc = none) :
    phase'.Holds := by
  have hold (hsame : gs.node? loc = fs.node? loc) : phase.Holds :=
    hheld.resolve_right (by simp [← hsame, hn])
  cases h with
  | opens _ => exact hold rfl
  | openFails _ => exact hold rfl
  | creates _ => trivial
  | createFails _ => exact hold rfl
  | copies _ =>
    rw [hdelete]
    trivial
  | fails _ _ _ _ => trivial
  | givesUp _ => trivial
  | retries => trivial
  | cancels => trivial
  | removes hu =>
    obtain ⟨parent, name, node, hr, -, -, rfl⟩ := unlink_eq_ok hu
    obtain rfl : name :: parent = loc := Option.some.inj ((place?_of_resolve hr).symm.trans hplace)
    rw [node?_erase, if_pos ⟨rfl, List.cons_ne_nil _ _⟩] at hn
    cases hn
  | removeFails hu =>
    rw [unlink_of_place hsep hplace hn] at hu
    cases hu
  | deletes _ => cases hkeeps
  | deleteFails _ => cases hkeeps
  | rests => exact hold rfl

theorem Turn.place_of_fresh (h : Turn mover source options a phase fs phase' gs)
    (hn : gs.node? loc = some (.file id)) (hfree : fs.node? loc = none) :
    fs.place? false (target mover source options) = some loc := by
  have hne (hsub : gs.node? loc = none ∨ gs.node? loc = fs.node? loc) : False := by
    rcases hsub with hsub | hsub
    · rw [hn] at hsub
      cases hsub
    · rw [hn, hfree] at hsub
      cases hsub
  have herase (l : Location) : (fs.erase l).node? loc = none ∨
      (fs.erase l).node? loc = fs.node? loc := by
    rw [node?_erase]
    split
    · exact Or.inl rfl
    · exact Or.inr rfl
  cases h with
  | creates hc =>
    obtain ⟨parent, name, hr, hfree', rfl, rfl⟩ := createNew_eq_ok hc
    rw [node?_insertFile hfree'] at hn
    split at hn
    · rename_i hl
      exact hl ▸ place?_of_resolve hr
    · rw [hfree] at hn
      cases hn
  | removes hu =>
    obtain ⟨parent, name, node, -, -, -, rfl⟩ := unlink_eq_ok hu
    exact (hne (herase _)).elim
  | deletes hu =>
    obtain ⟨parent, name, node, -, -, -, rfl⟩ := unlink_eq_ok hu
    exact (hne (herase _)).elim
  | _ => exact (hne (Or.inr (by simp))).elim

end Move

namespace Schedule

variable {s t : Schedule} {i : ℕ} {now : Instant} {j : Job}

theorem Keeping.exists_first (h : Keeping s t) (hj : j ∈ t.jobs) : ∃ k ∈ s.jobs,
    k.task = j.task ∧ k.source = j.source ∧ k.options = j.options := by
  have hm := List.mem_map_of_mem hj (f := fun j => (j.task, j.source, j.options))
  rw [h.moves_eq] at hm
  obtain ⟨k, hk, he⟩ := List.mem_map.mp hm
  obtain ⟨htask, hmove⟩ := Prod.mk.inj he
  exact ⟨k, hk, htask, Prod.mk.inj hmove⟩

/-- Every file that is new is held by a job whose target it is. -/
def Owned (s t : Schedule) : Prop :=
  ∀ loc, s.files.node? loc = none → t.files.node? loc ≠ none → ∃ (i : ℕ) (j : Job),
    t.jobs[i]? = some j ∧ j.phase.Holds ∧
      s.files.place? false (Move.target s.mover j.source j.options) = some loc

theorem Owned.stepJob (h : Owned s t) (hk : Keeping s t) (hu : Keeping s (t.stepJob i now j))
    (hdelete : j.options.deleteOnSuccess = false)
    (hsep : endsInSeparator (Move.target s.mover j.source j.options) = false)
    (hj : t.jobs[i]? = some j) : Owned s (t.stepJob i now j) := by
  obtain ⟨j', hm⟩ := @exists_moves t i now j hk.undisturbed
  intro loc hfree hstands
  obtain ⟨id, hn⟩ : ∃ id, (t.stepJob i now j).files.node? loc = some (.file id) := by
    obtain ⟨node, hn⟩ := Option.ne_none_iff_exists'.mp hstands
    rcases hu.adds.fresh loc node hn with hold | ⟨-, id, rfl⟩
    · rw [hfree] at hold
      cases hold
    · exact ⟨id, hn⟩
  have hself : (t.stepJob i now j).jobs[i]? = some j' := by
    rw [hm.jobs_eq, List.getElem?_set_self (List.getElem?_eq_some_iff.mp hj).1]
  have htarget : Move.target t.mover j.source j.options =
      Move.target s.mover j'.source j'.options := by rw [hk.mover_eq, hm.source_eq, hm.options_eq]
  -- another job still holds what it has held
  have hother {k : ℕ} {x : Job} (hx : t.jobs[k]? = some x) (hne : k ≠ i) (hh : x.phase.Holds)
      (hp : s.files.place? false (Move.target s.mover x.source x.options) = some loc) :
      ∃ (i' : ℕ) (j' : Job), (t.stepJob i now j).jobs[i']? = some j' ∧ j'.phase.Holds ∧
        s.files.place? false (Move.target s.mover j'.source j'.options) = some loc :=
    ⟨k, x, by rw [hm.jobs_eq, List.getElem?_set_ne hne.symm, hx], hh, hp⟩
  rcases hm.act with ⟨hstart, -, hfiles⟩ | ⟨a, hturn⟩
  · rw [hfiles] at hn
    obtain ⟨k, x, hx, hh, hp⟩ := h loc hfree (by simp [hn])
    refine hother hx ?_ hh hp
    rintro rfl
    obtain rfl := Option.some.inj (hx.symm.trans hj)
    rw [hstart] at hh
    cases hh
  · have hsep' : endsInSeparator (Move.target t.mover j.source j.options) = false := by
      rw [hk.mover_eq]
      exact hsep
    have hkeeps := hk.keeps j (List.mem_of_getElem? hj)
    by_cases hold : t.files.node? loc = none
    · have hplace := hturn.place_of_fresh hn hold
      refine ⟨i, j', hself, hturn.holds hkeeps hdelete hsep' hplace hn (Or.inr hold), ?_⟩
      rw [← htarget]
      exact hk.adds.place_iff.mp hplace
    · obtain ⟨k, x, hx, hh, hp⟩ := h loc hfree hold
      by_cases hki : k = i
      · subst hki
        obtain rfl := Option.some.inj (hx.symm.trans hj)
        have hp' : t.files.place? false (Move.target t.mover x.source x.options) = some loc := by
          rw [hk.mover_eq]
          exact hk.adds.place_iff.mpr hp
        refine ⟨k, j', hself, hturn.holds hkeeps hdelete hsep' hp' hn (Or.inl hh), ?_⟩
        rw [← htarget, hk.mover_eq]
        exact hp
      · exact hother hx hki hh hp

theorem Interleaves.owned (h : s.Interleaves t) (hs : s.files.Sound)
    (ha : Concurrent.Apart s.files s.calls)
    (hd : ∀ j ∈ s.jobs, j.options.deleteOnSuccess = false)
    (hplan : ∀ a ∈ s.plan, a.unlinks = none) (hstart : ∀ j ∈ s.jobs, j.phase = .starting)
    (hsep : ∀ j ∈ s.jobs, endsInSeparator (Move.target s.mover j.source j.options) = false) :
    Owned s t := by
  induction h with
  | refl => exact fun loc hfree hstands => absurd hfree hstands
  | move now h hj hr ih =>
    have hk := h.keeping hs ha hd hplan hstart
    obtain ⟨j₀, hj₀, -, hsource, hoptions⟩ := hk.exists_first (List.mem_of_getElem? hj)
    refine ih.stepJob hk (hk.stepJob hs ha hd hj) ?_ ?_ hj
    · exact hoptions ▸ hd j₀ hj₀
    · rw [← hsource, ← hoptions]
      exact hsep j₀ hj₀

namespace Keeping

variable (h : Keeping s t)
include h

theorem standing_eq (hs : s.files.Sound) (hn : s.files.standing? loc ≠ none) :
    t.files.standing? loc = s.files.standing? loc := by
  obtain ⟨node, hnode⟩ := Option.ne_none_iff_exists'.mp (mt standing?_eq_none_iff.mpr hn)
  refine standing?_eq_of_node? ((h.kept loc node hnode).trans hnode.symm) fun id hid => ?_
  exact h.safe.content_eq id (hs.id_lt hid)

/-- A job that has succeeded has put a complete copy where nothing was. -/
theorem delivered (hj : t.jobs[i]? = some j) {report : MoveReport}
    (hp : j.phase = .ended (.ok report)) : ∃ loc content,
      s.files.place? false (Move.target s.mover j.source j.options) = some loc ∧
        s.files.standing? loc = none ∧ s.files.readFile j.source = .ok content ∧
        t.files.standing? loc = some (.file (Handles.rendering j.options.compress content)) := by
  obtain ⟨hlt, hphase, hcall⟩ := h.getElem? hj
  have hfits := h.safe.fits ⟨i, hlt⟩
  rw [hphase, hp, hcall] at hfits
  obtain ⟨loc, id, content, ⟨hplace, hfree, hn, -⟩, hread, hcontent⟩ := hfits
  exact ⟨loc, content, hplace, standing?_eq_none_iff.mpr hfree, hread,
    standing?_eq_file_iff.mpr ⟨id, hn, hcontent⟩⟩

theorem place_ne {k : ℕ} {x : Job} (hj : t.jobs[i]? = some j) (hx : t.jobs[k]? = some x)
    (hne : i ≠ k) (hh : j.phase.Holds) (hh' : x.phase.Holds) :
    s.files.place? false (Move.target s.mover j.source j.options) ≠
      s.files.place? false (Move.target s.mover x.source x.options) := by
  obtain ⟨hlt, hphase, hcall⟩ := h.getElem? hj
  obtain ⟨hlt', hphase', hcall'⟩ := h.getElem? hx
  intro he
  have hsame := h.safe.exclusive ⟨i, hlt⟩ ⟨k, hlt'⟩ (hphase ▸ hh) (hphase' ▸ hh')
    (by rw [hcall, hcall']; exact he)
  exact hne (congrArg Fin.val hsame)

end Keeping

/-- Once every job has ended, what is new are the targets of jobs that have succeeded. -/
theorem Owned.ended (h : Owned s t) (hended : ∀ j ∈ t.jobs, j.result?.isSome)
    (hfree : s.files.standing? loc = none) (hstands : t.files.standing? loc ≠ none) :
    ∃ (i : ℕ) (j : Job) (report : MoveReport), t.jobs[i]? = some j ∧
      j.phase = .ended (.ok report) ∧
        s.files.place? false (Move.target s.mover j.source j.options) = some loc := by
  obtain ⟨i, j, hj, hh, hplace⟩ := h loc (standing?_eq_none_iff.mp hfree)
    (mt standing?_eq_none_iff.mpr hstands)
  obtain ⟨r, hp⟩ := Job.phase_eq_ended (hended j (List.mem_of_getElem? hj))
  rw [hp] at hh
  cases r with
  | ok report => exact ⟨i, j, report, hj, hp, hplace⟩
  | error e => cases hh

end Schedule
end CaptureExport
