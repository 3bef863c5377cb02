import CaptureExport.Proofs.FileSystem.Contents
import CaptureExport.Proofs.Memory.Difference

/-! # Relief cycles

A loop that is cancelled between two of its ticks has performed one cycle for each tick before,
whatever failed in them. Every cycle writes the warnings of its failed readings and then one line
more, about the request that failed or about the two readings, and no file but that of the request
is changed.
-/

namespace CaptureExport.MemoryRelief

variable {m : MemoryRelief} {fs gs : FileSystem} {n : ℕ} {c : Duration} {id : FileId} {e : IoError}

def counted : Except MemoryError ℕ → ℕ
  | .ok n => n
  | .error _ => 0

def warnings (phase : String) : Except MemoryError ℕ → List Log.Record
  | .ok _ => []
  | .error e => [record .warn "failed to read memory usage"
      [("phase", .text phase), ("error", .shown e.message)]]

/-- What a cycle finds: a request that fails after the first reading, or a second reading. -/
inductive Cycle where
  | refused (before : Except MemoryError ℕ) (cause : MemoryError)
  | relieved (before after : Except MemoryError ℕ)

def Cycle.lines : Cycle → List Log.Record
  | refused before cause => warnings "before" before ++
      [record .warn "failed to flush OS file write buffers" [("error", .shown cause.message)]]
  | relieved before after => warnings "before" before ++ warnings "after" after ++
      [reliefRecord ⟨counted before, counted after⟩ (counted before - counted after)]

inductive Performs (m : MemoryRelief) (fs : FileSystem) : Cycle → FileSystem → Prop
  | refused {cause : MemoryError} (h : m.dropCaches fs = .error cause) :
      Performs m fs (.refused (m.usage fs) cause) fs
  | relieved {gs : FileSystem} (h : m.dropCaches fs = .ok gs) :
      Performs m fs (.relieved (m.usage fs) (m.usage gs)) gs

/-- A counter below `2 ^ 63`, if there is one at all. -/
def Low (m : MemoryRelief) (fs : FileSystem) : Prop := ∀ v, m.usage fs = .ok v → v < Word.limit63

/-! ## Readings -/

theorem sample_eq (phase : String) (fs : FileSystem) :
    m.sample phase fs = (counted (m.usage fs), warnings phase (m.usage fs)) := by
  unfold sample
  cases m.usage fs <;> rfl

theorem Low.counted_lt (h : Low m fs) : counted (m.usage fs) < Word.limit63 := by
  cases hu : m.usage fs with
  | ok v => exact h v hu
  | error e => exact (by decide : 0 < Word.limit63)

theorem usage_of_request (h : fs.readFile m.usagePath = .ok request) : m.usage fs = .ok 3 := by
  have hdecode : Utf8.decode? request = some ['3', '\n'] := by decide +kernel
  have hword : Text.word? (Text.trim ['3', '\n']) = some 3 := by decide +kernel
  rw [usage, h]
  simp only [hdecode, hword]

theorem usage_congr (h : gs.readFile m.usagePath = fs.readFile m.usagePath) :
    m.usage gs = m.usage fs := by
  rw [usage, usage, h]

theorem Low.setContent (h : Low m fs) : Low m (fs.setContent id request) := by
  intro v hv
  rcases @FileSystem.readFile_setContent fs id request m.usagePath with hread | hread
  · rw [usage_of_request hread] at hv
    cases hv
    decide
  · exact h v (usage_congr hread ▸ hv)

/-! ## Requests -/

theorem dropCaches_of_openWrite (h : fs.openWrite m.dropPath = .ok id) :
    m.dropCaches fs = .ok (fs.setContent id request) := by
  rw [dropCaches, FileSystem.overwrite_of_openWrite h]

theorem dropCaches_of_error (h : fs.openWrite m.dropPath = .error e) :
    m.dropCaches fs = .error (.drop m.dropPath e) := by
  rw [dropCaches, FileSystem.overwrite_of_error h]

theorem dropCaches_again (h : fs.openWrite m.dropPath = .ok id) :
    m.dropCaches (fs.setContent id request) = .ok (fs.setContent id request) := by
  rw [dropCaches_of_openWrite ((FileSystem.openWrite_setContent _).trans h),
    FileSystem.setContent_setContent]

/-! ## Cycles -/

theorem cycles_of_performs {k : Cycle} (h : Performs m fs k gs) (hfs : Low m fs)
    (hgs : Low m gs) (n : ℕ) : m.cycles (n + 1) fs =
      ((m.cycles n gs).1, (m.cycles n gs).2.1, k.lines ++ (m.cycles n gs).2.2) := by
  cases h with
  | refused h => simp only [cycles, tick, opening, h, sample_eq, Cycle.lines]
  | relieved h =>
    have hsign : Relief.SameSign ⟨counted (m.usage fs), counted (m.usage gs)⟩ :=
      iff_of_true hfs.counted_lt hgs.counted_lt
    have htick : m.tick fs = (some ⟨counted (m.usage fs), counted (m.usage gs)⟩, gs,
        warnings "before" (m.usage fs) ++ warnings "after" (m.usage gs)) := by
      simp only [tick, opening, closing, h, sample_eq]
    rw [cycles_of_tick htick, Relief.released?_of_low hfs.counted_lt hgs.counted_lt]
    rfl

theorem cycles_refused (h : fs.openWrite m.dropPath = .error e) (hlow : Low m fs) (n : ℕ) :
    m.cycles n fs = (.returned, fs,
      (List.replicate n (.refused (m.usage fs) (.drop m.dropPath e))).flatMap Cycle.lines) := by
  induction n with
  | zero => rfl
  | succ n ih =>
    rw [cycles_of_performs (.refused (dropCaches_of_error h)) hlow hlow, ih, List.replicate_succ,
      List.flatMap_cons]

/-- Once the request has been made, all cycles are alike. -/
theorem cycles_repeated (h : m.dropCaches gs = .ok gs) (hlow : Low m gs) (n : ℕ) :
    m.cycles n gs = (.returned, gs,
      (List.replicate n (.relieved (m.usage gs) (m.usage gs))).flatMap Cycle.lines) := by
  induction n with
  | zero => rfl
  | succ n ih =>
    rw [cycles_of_performs (.relieved h) hlow hlow, ih, List.replicate_succ, List.flatMap_cons]

theorem cycles_relieved (h : fs.openWrite m.dropPath = .ok id) (hlow : Low m fs) (n : ℕ) :
    let gs := fs.setContent id request
    m.cycles (n + 1) fs = (.returned, gs, (.relieved (m.usage fs) (m.usage gs) ::
      List.replicate n (.relieved (m.usage gs) (m.usage gs))).flatMap Cycle.lines) := by
  intro gs
  have hgs : Low m gs := hlow.setContent
  rw [cycles_of_performs (.relieved (dropCaches_of_openWrite h)) hlow hgs,
    cycles_repeated (dropCaches_again h) hgs, List.flatMap_cons]

/-! ## Runs -/

structure Between (m : MemoryRelief) (n : ℕ) (c : Duration) : Prop where
  after : n = 0 ∨ n * m.interval < c
  before : c < (n + 1) * m.interval

/-- What the cycles of a run find and leave behind. When the request cannot be opened, every cycle
ends with it and nothing is changed. -/
inductive Leaves (m : MemoryRelief) (fs : FileSystem) : List Cycle → FileSystem → Prop
  | refused {ks : List Cycle} {e : IoError} (h : fs.openWrite m.dropPath = .error e)
      (hks : ∀ k ∈ ks, k = .refused (m.usage fs) (.drop m.dropPath e)) : Leaves m fs ks fs
  | unbegun {id : FileId} (h : fs.openWrite m.dropPath = .ok id) : Leaves m fs [] fs
  | relieved {k : Cycle} {ks : List Cycle} {id : FileId} {loc : Location} {gs : FileSystem}
      (h : fs.openWrite m.dropPath = .ok id) (hloc : fs.stat m.dropPath = .ok (loc, .file id))
      (hk : k = .relieved (m.usage fs) (m.usage gs))
      (hks : ∀ k ∈ ks, k = .relieved (m.usage gs) (m.usage gs))
      (hgs : ∀ l, gs.standing? l = if l = loc then some (.file request) else fs.standing? l) :
      Leaves m fs (k :: ks) gs

theorem ticksBefore_of_between (h : Between m n c) : m.ticksBefore c = n := by
  obtain ⟨hafter, hbefore⟩ := h
  rw [ticksBefore]
  refine Nat.div_eq_of_lt_le ?_ (Nat.lt_of_le_of_lt (Nat.sub_le c 1) hbefore)
  rcases hafter with rfl | hafter
  · simp
  · exact Nat.le_sub_one_of_lt hafter

theorem exists_leaves (hs : fs.Sound) (hlow : Low m fs) (n : ℕ) : ∃ ks gs, ks.length = n ∧
    m.cycles n fs = (.returned, gs, ks.flatMap Cycle.lines) ∧ Leaves m fs ks gs := by
  cases ho : fs.openWrite m.dropPath with
  | error e =>
    refine ⟨_, _, List.length_replicate, cycles_refused ho hlow n, .refused ho fun k hk => ?_⟩
    exact (List.mem_replicate.mp hk).2
  | ok id =>
    cases n with
    | zero => exact ⟨[], fs, rfl, rfl, .unbegun ho⟩
    | succ n =>
      obtain ⟨loc, hloc, hn⟩ := FileSystem.openWrite_eq_ok ho
      refine ⟨_, _, ?_, cycles_relieved ho hlow n, .relieved ho hloc rfl (fun k hk => ?_) ?_⟩
      · rw [List.length_cons, List.length_replicate]
      · exact (List.mem_replicate.mp hk).2
      · exact FileSystem.standing?_setContent hs hn

/-- A loop that is cancelled between its `n`-th tick and the next one has performed `n` cycles, as
long as no counter from `2 ^ 63` on does and the first tick is an instant. -/
theorem run_relieves (hs : fs.Sound) (hlow : Low m fs) (hc : Between m n c) (now : Instant) :
    ((Instant.after? now m.interval).isSome →
      ∃ ks gs, ks.length = n ∧ Leaves m fs ks gs ∧ m.run now c fs =
        (.returned, gs, m.startRecord :: ks.flatMap Cycle.lines ++ [stopRecord])) ∧
    (Instant.after? now m.interval = none →
      m.run now c fs = (.panicked Instant.overflowMessage, fs, [m.startRecord])) := by
  constructor
  · intro hfirst
    obtain ⟨first, hfirst⟩ := Option.isSome_iff_exists.mp hfirst
    obtain ⟨ks, gs, hlength, hcycles, hleaves⟩ := exists_leaves hs hlow n
    refine ⟨ks, gs, hlength, hleaves, ?_⟩
    rw [run, hfirst, ticksBefore_of_between hc]
    simp only [hcycles]
  · intro hnone
    rw [run, hnone]

/-- A counter of 4096 that is overwritten by the first of two requests. -/
theorem run_relieves_of_selfMeasured :
    let fs := counterFile (Utf8.ofString "4096")
    let gs := counterFile (Utf8.ofString "3\n")
    fs.Sound ∧ Low selfMeasured fs ∧ Between selfMeasured 2 25 ∧
    (∃ ks, ks.length = 2 ∧ Leaves selfMeasured fs ks gs) ∧
    selfMeasured.run 0 25 fs = (.returned, gs, [selfMeasured.startRecord,
      reliefRecord ⟨4096, 3⟩ 4093, reliefRecord ⟨3, 3⟩ 0, stopRecord]) := by
  intro fs gs
  have hs : fs.Sound := by decide +kernel
  have hlow : Low selfMeasured fs := by
    have husage : selfMeasured.usage fs = .ok 4096 := by decide +kernel
    intro v hv
    obtain rfl : 4096 = v := by simpa [husage] using hv
    decide
  have hc : Between selfMeasured 2 25 := ⟨Or.inr (by decide), by decide⟩
  have hrun : selfMeasured.run 0 25 fs = (.returned, gs, [selfMeasured.startRecord,
      reliefRecord ⟨4096, 3⟩ 4093, reliefRecord ⟨3, 3⟩ 0, stopRecord]) := by decide +kernel
  obtain ⟨ks, gs', hlength, hleaves, hrun'⟩ := (run_relieves hs hlow hc 0).1 (by decide)
  obtain rfl : gs = gs' := congrArg (fun r => r.2.1) (hrun.symm.trans hrun')
  exact ⟨hs, hlow, hc, ⟨ks, hlength, hleaves⟩, hrun⟩

end CaptureExport.MemoryRelief
