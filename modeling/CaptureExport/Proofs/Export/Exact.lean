import CaptureExport.Proofs.Export.Retrying
import CaptureExport.Proofs.Gzip.RoundTrip

/-! # Exact copies

Both handles of a move go back to their start before every attempt, so nothing that a failed attempt
has read or written shows in the copy of a later one. A move that succeeds has put an exact copy of
its source where nothing stood, and it has changed nothing else but the name of its source.
-/

namespace CaptureExport

open FileSystem Move

/-- The octets of a target stand for a content. -/
def Renders (compress : Bool) (octets content : Bytes) : Prop :=
  if compress then Gzip.Stream octets content else octets = content

theorem renders_rendering (compress : Bool) (content : Bytes) :
    Renders compress (Handles.rendering compress content) content := by
  cases compress
  · rfl
  · exact Gzip.stream_encode content

variable {mover : Mover} {source : Path} {options : MoveOptions} {plan made : Plan}
  {cancel : Option Instant} {fs gs copied : FileSystem} {report : MoveReport}
  {denial : Option IoError}

/-- What a successful move has done, by the files before it, after its copy, and after it: nothing
else has changed but for what others have removed. The deletion of the source may be denied. -/
structure Exact (source : Path) (options : MoveOptions) (made : Plan) (denial : Option IoError)
    (fs copied gs : FileSystem) (report : MoveReport) : Prop where
  target : ∃ loc octets content, fs.place? false report.target = some loc ∧
    fs.standing? loc = none ∧ gs.standing? loc = some (.file octets) ∧
    fs.readFile source = .ok content ∧ Renders options.compress octets content ∧
    report.bytes = content.length
  copied_others : ∀ loc, fs.place? false report.target ≠ some loc →
    copied.standing? loc = fs.standing? loc ∨
      (copied.standing? loc = none ∧ made.Removes fs loc)
  deleted_eq : report.deleted =
    (options.deleteOnSuccess && (copied.unlinkUnless denial source).isOk)
  undeleted : options.deleteOnSuccess = true → report.deleted = false → ∃ loc,
    fs.place? false source = some loc ∧
      (denial.isSome ∨ copied.standing? loc = none ∧ made.Removes fs loc)
  gone_iff : ∀ loc, fs.place? false source = some loc →
    (gs.standing? loc = none ↔ copied.standing? loc = none ∨ report.deleted = true)
  others : ∀ loc, fs.place? false source ≠ some loc ∨ report.deleted = false →
    gs.standing? loc = copied.standing? loc
  working_eq : gs.working = fs.working

theorem standing?_erase {loc : Location} (hne : loc ≠ []) (l : Location) :
    (fs.erase loc).standing? l = if l = loc then none else fs.standing? l := by
  unfold standing?
  rw [node?_erase]
  by_cases hl : l = loc
  · simp [hl, hne]
  · simp [hl]

theorem Exact.of_files {loc l : Location} {id : FileId} {content : Bytes} (hs : fs.Sound)
    (hheld : Held (made.Removes fs) fs copied report.target loc id)
    (hread : fs.readFile source = .ok content)
    (hcontent : copied.content id = Handles.rendering options.compress content)
    (hbytes : report.bytes = content.length) (hplace : fs.place? false source = some l)
    (hstood : fs.node? l ≠ none)
    (hdeleted : report.deleted =
      (options.deleteOnSuccess && (copied.unlinkUnless denial source).isOk))
    (hfailed : options.deleteOnSuccess = true → report.deleted = false →
      denial.isSome ∨ copied.standing? l = none ∧ made.Removes fs l)
    (hfiles : gs = if report.deleted then copied.erase l else copied) :
    Exact source options made denial fs copied gs report := by
  have hne : l ≠ [] := by
    obtain ⟨parent, name, -, rfl, -⟩ := place?_eq_some hplace
    exact List.cons_ne_nil _ _
  have hloc : loc ≠ l := fun he => hstood (he ▸ hheld.free)
  have hstanding (k : Location) : gs.standing? k =
      if report.deleted = true ∧ k = l then none else copied.standing? k := by
    rw [hfiles]
    cases report.deleted
    · simp
    · simp [standing?_erase hne]
  constructor
  case target =>
    refine ⟨loc, _, content, hheld.place_eq, standing?_eq_none_iff.mpr hheld.free, ?_, hread,
      renders_rendering _ _, hbytes⟩
    rw [hstanding, if_neg fun hc => hloc hc.2]
    exact standing?_eq_file_iff.mpr ⟨id, hheld.node_eq, hcontent⟩
  case copied_others =>
    intro k hk
    rcases hheld.differs.standing? hs k with h | h | ⟨-, rfl⟩
    · exact Or.inl h
    · exact Or.inr h
    · exact absurd hheld.place_eq hk
  case deleted_eq => exact hdeleted
  case undeleted => exact fun hdelete hnot => ⟨l, hplace, hfailed hdelete hnot⟩
  case gone_iff =>
    intro k hk
    obtain rfl : l = k := Option.some.inj (hplace.symm.trans hk)
    rw [hstanding]
    cases report.deleted <;> simp
  case others =>
    intro k hk
    rw [hstanding, if_neg]
    rintro ⟨hdel, rfl⟩
    rcases hk with hk | hk
    · exact hk hplace
    · exact Bool.false_ne_true (hk.symm.trans hdel)
  case working_eq =>
    rw [hfiles, ← hheld.differs.working]
    cases report.deleted <;> rfl

theorem exact_of_tracks {denied : ℕ → Option IoError} (hs : fs.Sound)
    (h : Tracks (made.Removes fs) denied mover source options fs (.ended (.ok report)) gs) :
    ∃ copied, Exact source options made (denied report.attempts) fs copied gs report := by
  obtain ⟨htarget, copied, ⟨loc, id, content, hheld, hread, hcontent, hbytes⟩, hfiles,
    hdeleted⟩ := h
  rw [← htarget] at hheld
  obtain ⟨i, ho, -⟩ := readFile_eq_ok hread
  obtain ⟨l, hplace, hstood, hunlink⟩ := hheld.differs.unlink_opened ho
  refine ⟨copied, .of_files hs hheld hread hcontent hbytes hplace hstood hdeleted ?_ ?_⟩
  · intro hdelete hnot
    rcases hunlink with ⟨hu, -⟩ | ⟨-, hgone, hrem⟩
    · cases hdenied : denied report.attempts with
      | some e => exact Or.inl rfl
      | none =>
        simp [hdeleted, hdelete, hdenied, unlinkUnless, hu, Except.isOk, Except.toBool] at hnot
    · exact Or.inr ⟨standing?_eq_none_iff.mpr hgone, hrem⟩
  · rw [hfiles]
    split
    · rename_i hdel
      rcases hunlink with ⟨hu, -⟩ | ⟨hu, -, -⟩
      · simp [FileSystem.after, FileSystem.apply, hu]
      · -- the source is gone, so that it cannot have been deleted
        rw [hdeleted] at hdel
        cases hdenied : denied report.attempts <;>
          simp [hdenied, unlinkUnless, hu, Except.isOk, Except.toBool] at hdel
    · rfl

/-! ## Failed attempts before a copy -/

section Recovers

variable {failed rest : Plan} {a : Attempt} {content : Bytes} {id : FileId}

/-- What is known of the endings of attempts when the first ones fail and the next one copies. -/
def Recovers (failures bytes k : ℕ) (e : Handles.Ending) : Prop :=
  (k < failures → ∃ cause, e = .failed cause) ∧ (k = failures → e = .copied bytes)

theorem recovers_of_attempt (hs : fs.Sound) (hfails : ∀ b ∈ failed, b.Fails)
    (hcomplete : a.result = .complete) (hu : a.unlinks = none)
    (hread : fs.readFile source = .ok content) (x : Solo) (hd : Handles) (k : ℕ)
    (hx : Solo.Tracked mover source options (failed ++ a :: rest) fs x)
    (hp : x.phase = .copying hd k) :
    Recovers failed.length content.length k
      (hd.attempt options.compress ((failed ++ a :: rest).getD k {}) x.files).1 := by
  rw [List.getD_eq_getElem?_getD]
  constructor
  · intro hk
    rw [List.getElem?_append_left hk, List.getElem?_eq_getElem hk]
    exact Handles.attempt_failed (hfails _ (List.getElem_mem hk))
  · rintro rfl
    obtain ⟨before, -, htracks⟩ := hx.tracks
    rw [hp] at htracks
    obtain ⟨ho, loc, hheld⟩ := htracks
    simp only [List.getElem?_append_right (Nat.le_refl _), Nat.sub_self, List.getElem?_cons_zero,
      Option.getD_some]
    rw [Handles.attempt_ending hu, Tracks.readOpened_eq hs ho hheld, hread]
    simp [Attempt.ending, hcomplete]

/-- The attempt after the failed ones concludes the move, when no wait before it is cut short. -/
theorem concluded_by_copy {retry : RetryPolicy} {causes : List IoError} {failures bytes n : ℕ}
    {time : Instant} {last : Option Handles.Ending}
    (h : Retrying.Concludes retry cancel (Recovers failures bytes) causes n time last)
    (hlt : failures < retry.attempts)
    (hcancel : ∀ c, cancel = some c → failures ≠ 0 → failures * retry.delay < c) :
    n = failures + 1 ∧ last = some (.copied bytes) := by
  -- no more attempts have failed than are to fail
  have hle (hends : ∀ k (hk : k < causes.length), Recovers failures bytes k (.failed causes[k])) :
      causes.length ≤ failures := by
    by_contra hgt
    have := (hends failures (Nat.not_le.mp hgt)).2 rfl
    cases this
  cases h with
  | settled hfailed he hlast =>
    rcases Nat.lt_or_eq_of_le (hle hfailed.ends) with hfewer | heq
    · obtain ⟨cause, hcause⟩ := he.1 hfewer
      rcases hlast with hlast | hlast
      · exact absurd hcause (hlast cause)
      · omega
    · exact ⟨by rw [heq], by rw [he.2 heq]⟩
  | cancelled hfailed hne hc hcut =>
    have hfewer := hle hfailed.ends
    have hpos := List.length_pos_iff.mpr hne
    have hpassed := hcancel _ hc (by omega)
    have hmono := Nat.mul_le_mul_right retry.delay hfewer
    exact absurd (Nat.lt_of_lt_of_le hpassed (Nat.le_trans hcut hmono)) (Nat.lt_irrefl _)

theorem recovers (hs : fs.Sound)
    (hplan : (failed ++ a :: rest).Spares fs (target mover source options))
    (hcancels : ∀ b ∈ failed ++ a :: rest, b.cancels = false) (hfails : ∀ b ∈ failed, b.Fails)
    (hcomplete : a.result = .complete) (hu : a.unlinks = none)
    (hlt : failed.length < mover.retry.attempts)
    (hcancel : ∀ c, cancel = some c → failed.length ≠ 0 →
      failed.length * mover.retry.delay < c)
    (hread : fs.readFile source = .ok content)
    (hcreate : fs.createNew (target mover source options) = .ok (gs, id)) :
    ∃ deleted, (mover.move source options (failed ++ a :: rest) cancel fs).result =
      .ok ⟨target mover source options, content.length, failed.length + 1, deleted⟩ := by
  obtain ⟨i, hopen, -⟩ := readFile_eq_ok hread
  obtain ⟨x, r, hx, hr, hmove⟩ := Retrying.move_accounted hs hplan hcancels hopen hcreate
    (recovers_of_attempt hs hfails hcomplete hu hread) cancel
  have hcounts := hx.counts
  obtain ⟨made, hmade, htracks⟩ := hx.tracks
  rw [hr] at hcounts htracks
  rw [hmove]
  cases r with
  | error e =>
    obtain ⟨causes, n, last, hconcludes, hresult, -⟩ := hcounts
    obtain ⟨-, rfl⟩ := concluded_by_copy hconcludes hlt hcancel
    cases hresult
  | ok report =>
    obtain ⟨causes, deletion, hconcludes, -⟩ := hcounts
    obtain ⟨hattempts, hlast⟩ := concluded_by_copy hconcludes hlt hcancel
    obtain ⟨htarget, -⟩ := htracks
    refine ⟨report.deleted, ?_⟩
    rw [← htarget, ← hattempts, ← Handles.Ending.copied.inj (Option.some.inj hlast)]

end Recovers

/-- The attempt that completes makes the move succeed, whatever failed attempts have read and
written before. Every move that succeeds has made an exact copy where nothing stood. -/
theorem move_exact (hs : fs.Sound) (hplan : plan.Spares fs (target mover source options)) :
    (∀ failed a rest content gs id, plan = failed ++ a :: rest → (∀ b ∈ failed, b.Fails) →
      a.result = .complete → a.unlinks = none → (∀ b ∈ plan, b.cancels = false) →
      failed.length < mover.retry.attempts →
      (∀ c, cancel = some c → failed.length ≠ 0 → failed.length * mover.retry.delay < c) →
      fs.readFile source = .ok content →
      fs.createNew (target mover source options) = .ok (gs, id) →
      ∃ deleted, (mover.move source options plan cancel fs).result =
        .ok ⟨target mover source options, content.length, failed.length + 1, deleted⟩) ∧
    ∀ report, (mover.move source options plan cancel fs).result = .ok report →
      report.target = target mover source options ∧
      ∃ made copied, plan = made ++ (mover.move source options plan cancel fs).plan ∧
        Exact source options made (plan.denialAfter report.attempts) fs copied
          (mover.move source options plan cancel fs).files report := by
  constructor
  · rintro failed a rest content gs id rfl hfails hcomplete hu hcancels hlt hcancel hread hcreate
    exact recovers hs hplan hcancels hfails hcomplete hu hlt hcancel hread hcreate
  · intro report hreport
    obtain ⟨made, hmade, htracks⟩ := Mover.move_tracks cancel hs hplan
    rw [hreport] at htracks
    obtain ⟨copied, h⟩ := exact_of_tracks hs htracks
    exact ⟨htracks.1, made, copied, hmade, h⟩

theorem Exact.standing_target {loc : Location} {content : Bytes}
    (h : Exact source options made denial fs copied gs report) (hplain : options.compress = false)
    (hplace : fs.place? false report.target = some loc)
    (hread : fs.readFile source = .ok content) : gs.standing? loc = some (.file content) := by
  obtain ⟨loc', octets, content', hplace', -, hstanding, hread', hrenders, -⟩ := h.target
  obtain rfl := Option.some.inj (hplace.symm.trans hplace')
  obtain rfl := Except.ok.inj (hread.symm.trans hread')
  rw [Renders, hplain] at hrenders
  obtain rfl : octets = content := hrenders
  exact hstanding

/-- An attempt that writes something else and fails, while somebody removes the source; the next one
completes. -/
def robbedPlan : Plan := [{ unlinks := some ⟨[97]⟩, result := .fails 1 [9, 9, 9] .missing }, {}]

def deniedPlan : Plan :=
  [{ result := .fails 1 [9, 9, 9] .missing },
    { denial := some (.other "Permission denied (os error 13)") }]

/-- The copy is made from the open source although there is nothing left to delete, and also when
the source cannot be deleted, which leaves it as it was. -/
theorem move_exact_of_undeleted : strayFiles.Sound ∧
    robbedPlan.Spares strayFiles (target Retrying.patientMover ⟨[97]⟩ ⟨false, true⟩) ∧
    (∃ deleted, (Retrying.patientMover.move ⟨[97]⟩ ⟨false, true⟩ robbedPlan none
        strayFiles).result = .ok ⟨⟨[100, 47, 97]⟩, 2, 2, deleted⟩ ∧
      (Retrying.patientMover.move ⟨[97]⟩ ⟨false, true⟩ robbedPlan none strayFiles).files.standing?
        [[97], [100]] = some (.file [1, 2])) ∧
    (Retrying.patientMover.move ⟨[97]⟩ ⟨false, true⟩ deniedPlan none strayFiles).result =
      .ok ⟨⟨[100, 47, 97]⟩, 2, 2, false⟩ ∧
    (Retrying.patientMover.move ⟨[97]⟩ ⟨false, true⟩ deniedPlan none strayFiles).files.standing?
      [[97], [100]] = some (.file [1, 2]) ∧
    (Retrying.patientMover.move ⟨[97]⟩ ⟨false, true⟩ deniedPlan none strayFiles).files.standing?
      [[97]] = some (.file [1, 2]) := by
  have hs : strayFiles.Sound := by decide
  have hspares : robbedPlan.Spares strayFiles
      (target Retrying.patientMover ⟨[97]⟩ ⟨false, true⟩) := by
    rintro loc ⟨a, ha, p, hp, hplace⟩
    simp only [robbedPlan, List.mem_cons, List.not_mem_nil, or_false] at ha
    rcases ha with rfl | rfl
    · obtain rfl : (⟨[97]⟩ : Path) = p := Option.some.inj hp
      have hsource : strayFiles.place? false ⟨[97]⟩ = some [[97]] := by decide
      obtain rfl := Option.some.inj (hsource.symm.trans hplace)
      have hnode : strayFiles.node? [[97]] = some (.file 0) := by decide
      exact ⟨by decide, by simp [hnode]⟩
    · cases hp
  have hunlinks : ∀ a ∈ deniedPlan, a.unlinks = none := by decide
  have hspares' : deniedPlan.Spares strayFiles
      (target Retrying.patientMover ⟨[97]⟩ ⟨false, true⟩) :=
    Plan.spares_of_unlinks_eq_none hunlinks
  have hread : strayFiles.readFile ⟨[97]⟩ = .ok [1, 2] := by decide
  have hcreate : strayFiles.createNew (target Retrying.patientMover ⟨[97]⟩ ⟨false, true⟩) =
      .ok ((strayFiles.insertFile [[97], [100]] []).1, 2) := by decide
  have hplace : strayFiles.place? false ⟨[100, 47, 97]⟩ = some [[97], [100]] := by decide
  obtain ⟨hsucceeds, hexact⟩ := @move_exact _ _ _ _ none _ hs hspares
  obtain ⟨deleted, hresult⟩ := hsucceeds [robbedPlan[0]] {} [] [1, 2] _ 2 rfl
    (by simp [robbedPlan, Attempt.Fails]) rfl rfl (by decide) (by decide) (by simp) hread hcreate
  obtain ⟨-, made, copied, -, h⟩ := hexact _ hresult
  obtain ⟨hsucceeds', hexact'⟩ := @move_exact _ _ _ _ none _ hs hspares'
  obtain ⟨deleted', hresult'⟩ := hsucceeds' [deniedPlan[0]] deniedPlan[1] [] [1, 2] _ 2 rfl
    (by simp [deniedPlan, Attempt.Fails]) rfl rfl (by decide) (by decide) (by simp) hread hcreate
  obtain ⟨-, made', copied', hmade, h'⟩ := hexact' _ hresult'
  obtain rfl : deleted' = false := h'.deleted_eq
  refine ⟨hs, hspares, ⟨deleted, hresult, h.standing_target rfl hplace hread⟩, hresult',
    h'.standing_target rfl hplace hread, ?_⟩
  have hkept := (h'.copied_others [[97]] (by decide)).resolve_right fun ⟨_, hr⟩ =>
    Plan.not_removes (fun a ha => hunlinks a (hmade ▸ List.mem_append_left _ ha)) hr
  rw [h'.others _ (Or.inr rfl), hkept]
  decide

end CaptureExport
