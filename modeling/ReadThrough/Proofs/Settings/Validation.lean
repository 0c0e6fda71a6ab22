import Mathlib.Data.List.TakeWhile
import ReadThrough.Proofs.Paging.Limits
import ReadThrough.Settings.Basic
/-!
# Which settings are accepted

Checking settings goes through a list of demands, and it reports the first that is not met
(`SuppliedSettings.asks_check`). All of them are met if and only if the settings are admissible
(`SuppliedSettings.admissible_iff`). What is accepted then leaves the bounds of a page nothing to correct:
a page of no given size has the default size (`SuppliedSettings.validation`).
-/

namespace ReadThrough

/-! ## Demands -/

/-- What is demanded of a setting, and the fault that is reported when the demand is not met. -/
structure Demand where
  setting : CheckedSetting
  fault : SettingFault
  met : Bool

/-- The error of a demand that is not met. -/
def Demand.error (d : Demand) : SettingsError := .invalid d.setting d.fault

/-- The first demand that is not met. -/
def firstUnmet (ds : List Demand) : Option Demand := ds.find? fun d => !d.met

/-- A check that gives a value when all demands are met, and reports the first one that is not. -/
def Asks {α : Type} (x : Except SettingsError α) (ds : List Demand) (a : α) : Prop :=
  x = match firstUnmet ds with
    | some d => .error d.error
    | none => .ok a

section Asks

variable {α β : Type} {x : Except SettingsError α} {ds es : List Demand} {d : Demand} {a : α} {b : β}

theorem asks_ok (a : α) : Asks (.ok a) [] a := rfl

/-- A check after another one: its demands come after the other's. -/
theorem Asks.bind {f : α → Except SettingsError β} (hx : Asks x ds a) (hf : Asks (f a) es b) :
    Asks (x >>= f) (ds ++ es) b := by
  rw [Asks, firstUnmet, List.find?_append]
  rw [hx, firstUnmet]
  cases ds.find? fun d => !d.met with
  | some d => rfl
  | none => exact hf

theorem Asks.map (hx : Asks x ds a) (f : α → β) : Asks (x.map f) ds (f a) := by
  rw [Asks, hx]
  cases firstUnmet ds <;> rfl

theorem firstUnmet_eq_none_iff : firstUnmet ds = none ↔ ∀ d ∈ ds, d.met = true := by
  simp [firstUnmet]

theorem Asks.exists_ok_iff (hx : Asks x ds a) : (∃ a, x = .ok a) ↔ ∀ d ∈ ds, d.met = true := by
  rw [hx, ← firstUnmet_eq_none_iff]
  cases firstUnmet ds with
  | none => exact ⟨fun _ => rfl, fun _ => ⟨a, rfl⟩⟩
  | some d => exact ⟨nofun, nofun⟩

theorem Asks.eq_of_ok (hx : Asks x ds a) {a' : α} (h : x = .ok a') : a' = a := by
  rw [hx] at h
  cases hunmet : firstUnmet ds with
  | none =>
    rw [hunmet] at h
    exact (Except.ok.inj h).symm
  | some d =>
    rw [hunmet] at h
    cases h

theorem Asks.eq_error_iff (hx : Asks x ds a) {e : SettingsError} :
    x = .error e ↔ ∃ d, firstUnmet ds = some d ∧ e = d.error := by
  rw [hx]
  cases firstUnmet ds with
  | none => exact ⟨nofun, nofun⟩
  | some d =>
    constructor
    · rintro h
      cases h
      exact ⟨d, rfl, rfl⟩
    · rintro ⟨_, heq, rfl⟩
      cases heq
      rfl

end Asks

/-! ## Numbers -/

/-- A number that must not be zero; it may be left out. -/
def Demand.positive (setting : CheckedSetting) (n : Option UInt64) : Demand :=
  ⟨setting, .notPositive, n ≠ some 0⟩

/-- A number that must fit a word of 32 bits; it may be left out. -/
def Demand.fits (setting : CheckedSetting) (n : Option UInt64) : Demand :=
  ⟨setting, .beyondWord, n.all fun n => n.toNat < UInt32.size⟩

/-- A number that must not be greater than another one. -/
def Demand.atMost (setting bound : CheckedSetting) (n max : UInt32) : Demand :=
  ⟨setting, .above bound max.toNat, n ≤ max⟩

namespace SuppliedSettings

/-- A number as a word of 32 bits, or its default. -/
def word (default : UInt32) (n : Option UInt64) : UInt32 := (n.map UInt64.toUInt32).getD default

theorem asks_positive (setting : CheckedSetting) (default : UInt64) (n : Option UInt64) :
    Asks (positive setting default n) [.positive setting n] (n.getD default) := by
  cases n with
  | none => rfl
  | some n =>
    by_cases hzero : n = 0
    · subst hzero
      rfl
    · rw [positive, if_neg hzero]
      simp [Asks, firstUnmet, Demand.positive, hzero]

theorem asks_absent {α : Type} (setting : CheckedSetting) (a : α) : Asks (.ok a) [.positive setting none] a := rfl

theorem asks_positiveWord (setting : CheckedSetting) (default : UInt32) (n : Option UInt64) :
    Asks (positiveWord setting default n) [.positive setting n, .fits setting n] (word default n) := by
  cases n with
  | none => rfl
  | some n =>
    by_cases hzero : n = 0
    · subst hzero
      rfl
    · rw [positiveWord, if_neg hzero]
      by_cases hfits : n.toNat < UInt32.size
      · rw [if_pos hfits]
        simp [Asks, firstUnmet, Demand.positive, Demand.fits, hzero, hfits, word]
      · rw [if_neg hfits]
        simp [Asks, firstUnmet, Demand.positive, Demand.fits, Demand.error, hzero, hfits]

theorem asks_atMost (setting bound : CheckedSetting) (n max : UInt32) :
    Asks (atMost setting bound n max) [.atMost setting bound n max] () := by
  by_cases hle : n ≤ max <;> simp [Asks, atMost, firstUnmet, Demand.atMost, Demand.error, hle]

/-- A number that may be the size of a page: it is left out, or it is not zero and fits a word of 32 bits. -/
def Sizable (n : Option UInt64) : Prop := ∀ m, n = some m → 0 < m ∧ m.toNat < UInt32.size

/-- A number that fits a word is the same number as a word. -/
theorem toUInt64_word {n : Option UInt64} (h : Sizable n) (default : UInt32) :
    (word default n).toUInt64 = n.getD default.toUInt64 := by
  cases n with
  | none => rfl
  | some n =>
    refine UInt64.toNat_inj.1 ?_
    show n.toUInt32.toUInt64.toNat = n.toNat
    rw [UInt32.toNat_toUInt64, UInt64.toNat_toUInt32]
    exact Nat.mod_eq_of_lt (h n rfl).2

variable (s : SuppliedSettings)

/-! ## Every setting -/

/-- What is demanded of the cache. -/
def cacheDemands : List Demand :=
  [.positive .ttl s.ttl, .positive .maxBatchSize s.maxBatchSize, .positive .fetchTimeout s.fetchTimeout]

/-- What is demanded of the limits of a page: first of each, then of two together. -/
def limitDemands : List Demand :=
  [.positive .maxPageSize s.maxPageSize, .fits .maxPageSize s.maxPageSize,
   .positive .defaultPageSize s.defaultPageSize, .fits .defaultPageSize s.defaultPageSize,
   .positive .maxFirst s.maxFirst, .fits .maxFirst s.maxFirst,
   .positive .defaultFirst s.defaultFirst, .fits .defaultFirst s.defaultFirst,
   .atMost .defaultPageSize .maxPageSize (word 20 s.defaultPageSize) (word 200 s.maxPageSize),
   .atMost .defaultFirst .maxFirst (word 10 s.defaultFirst) (word 20 s.maxFirst)]

/-- What is demanded of settings, in the order in which it is checked. -/
def demands : List Demand :=
  ⟨.level, .unknownLevel, s.level.all fun text => (LogLevel.ofString? text).isSome⟩ ::
    .positive .maxConnections (s.maxConnections.map UInt32.toUInt64) ::
    .fits .maxConnections (s.maxConnections.map UInt32.toUInt64) ::
    (s.cacheDemands ++ ⟨.channel, .blank, s.channel.all fun text => trim text ≠ ""⟩ :: s.limitDemands)

/-- The set-up of the cache, what is left out by its default. -/
def settledCache : CacheConfig where
  enabled := s.enabled.getD true
  ttl := s.ttl.getD 30000
  batchDelay := s.batchDelay.getD 20
  maxBatchSize := s.maxBatchSize.getD 100
  fetchTimeout := s.fetchTimeout

/-- The limits of a page, what is left out by its default. -/
def settledLimits : Limits where
  maxPageSize := word 200 s.maxPageSize
  defaultPageSize := word 20 s.defaultPageSize
  defaultFirst := word 10 s.defaultFirst
  maxFirst := word 20 s.maxFirst

/-- The settings, what is left out by its default. -/
def settled : Settings where
  logLevel := (s.level.bind LogLevel.ofString?).getD .info
  logFormat := if s.json = some true then .json else .compact
  databaseUrl := (s.url.map trim).filter (· ≠ "")
  maxConnections := word 8 (s.maxConnections.map UInt32.toUInt64)
  cache := s.settledCache
  channel := (s.channel.map trim).getD "cache-invalidation"
  limits := s.settledLimits

theorem asks_checkLevel : Asks s.checkLevel
    [⟨.level, .unknownLevel, s.level.all fun text => (LogLevel.ofString? text).isSome⟩]
    ((s.level.bind LogLevel.ofString?).getD .info) := by
  rw [checkLevel]
  cases s.level with
  | none => rfl
  | some text => cases h : LogLevel.ofString? text <;> simp [Asks, firstUnmet, Demand.error, h]

theorem asks_checkChannel : Asks s.checkChannel [⟨.channel, .blank, s.channel.all fun text => trim text ≠ ""⟩]
    ((s.channel.map trim).getD "cache-invalidation") := by
  rw [checkChannel]
  cases s.channel with
  | none => rfl
  | some text => by_cases h : trim text = "" <;> simp [Asks, firstUnmet, Demand.error, h]

theorem asks_checkCache : Asks s.checkCache s.cacheDemands s.settledCache := by
  rw [checkCache, cacheDemands, settledCache]
  cases s.fetchTimeout with
  | none => exact (asks_positive ..).bind <| (asks_positive ..).bind (asks_absent _ _)
  | some n =>
    exact (asks_positive ..).bind <| (asks_positive ..).bind <|
      ((asks_positive .fetchTimeout n (some n)).map some).bind (asks_ok _)

theorem asks_checkLimits : Asks s.checkLimits s.limitDemands s.settledLimits :=
  (asks_positiveWord ..).bind <| (asks_positiveWord ..).bind <| (asks_positiveWord ..).bind <|
    (asks_positiveWord ..).bind <| (asks_atMost ..).bind <| (asks_atMost ..).bind (asks_ok _)

/-- Checking settings goes through their demands, and settles what is left out. -/
theorem asks_check : Asks s.check s.demands s.settled := by
  have hlimits := s.asks_checkLimits.bind (f := fun limits => .ok { s.settled with limits }) (asks_ok _)
  rw [List.append_nil] at hlimits
  exact s.asks_checkLevel.bind <| (asks_positiveWord ..).bind <| s.asks_checkCache.bind <|
    s.asks_checkChannel.bind hlimits

/-! ## Admissible settings -/

/-- Settings that may be used: the level is known, what is counted or timed is not zero, the sizes fit a word of 32
bits, the channel is not blank, and no default is greater than its bound. -/
structure Admissible : Prop where
  level : ∀ text, s.level = some text → ∃ level, LogLevel.ofString? text = some level
  maxConnections : s.maxConnections ≠ some 0
  ttl : s.ttl ≠ some 0
  maxBatchSize : s.maxBatchSize ≠ some 0
  fetchTimeout : s.fetchTimeout ≠ some 0
  channel : ∀ text, s.channel = some text → ∃ c ∈ text.toList, isBlank c = false
  maxPageSize : Sizable s.maxPageSize
  defaultPageSize : Sizable s.defaultPageSize
  maxFirst : Sizable s.maxFirst
  defaultFirst : Sizable s.defaultFirst
  pageSizes : s.defaultPageSize.getD 20 ≤ s.maxPageSize.getD 200
  firsts : s.defaultFirst.getD 10 ≤ s.maxFirst.getD 20

/-- A text is blank if nothing is left of it without the blanks at its ends. -/
theorem trim_eq_empty_iff {text : String} : trim text = "" ↔ ∀ c ∈ text.toList, isBlank c = true := by
  rw [trim, String.ofList_eq_empty_iff, trimBlanks, List.reverse_eq_nil_iff, List.dropWhile_eq_nil_iff]
  simp only [List.mem_reverse]
  constructor
  · intro h c hc
    rw [← List.takeWhile_append_dropWhile (p := isBlank) (l := text.toList), List.mem_append] at hc
    exact hc.elim List.mem_takeWhile_imp (h c)
  · intro h
    rw [List.dropWhile_eq_nil_iff.2 h]
    nofun

theorem trim_ne_empty_iff {text : String} : trim text ≠ "" ↔ ∃ c ∈ text.toList, isBlank c = false := by
  rw [Ne, trim_eq_empty_iff]
  simp only [not_forall, exists_prop, Bool.not_eq_true]

theorem met_positive_iff {setting : CheckedSetting} {n : Option UInt64} :
    (Demand.positive setting n).met = true ↔ n ≠ some 0 := decide_eq_true_iff

theorem met_word_iff (setting : CheckedSetting) {n : Option UInt64} :
    ((Demand.positive setting n).met = true ∧ (Demand.fits setting n).met = true) ↔ Sizable n := by
  rw [met_positive_iff, Sizable]
  cases n with
  | none => exact ⟨fun _ => nofun, fun _ => ⟨nofun, rfl⟩⟩
  | some n =>
    have hpos : n ≠ 0 ↔ 0 < n := UInt64.pos_iff_ne_zero.symm
    simp [Demand.fits, hpos]

/-- Numbers that fit a word are compared as words. -/
theorem word_le_word_iff {n max : Option UInt64} {default defaultMax : UInt32}
    (hn : Sizable n) (hmax : Sizable max) :
    word default n ≤ word defaultMax max ↔ n.getD default.toUInt64 ≤ max.getD defaultMax.toUInt64 := by
  rw [← toUInt64_word hn, ← toUInt64_word hmax, UInt32.toUInt64_le]

/-- All demands are met if and only if the settings are admissible. -/
theorem admissible_iff : (∀ d ∈ s.demands, d.met = true) ↔ s.Admissible := by
  have hlevel : (s.level.all fun text => (LogLevel.ofString? text).isSome) = true ↔
      ∀ text, s.level = some text → ∃ level, LogLevel.ofString? text = some level := by
    cases s.level <;> simp [Option.isSome_iff_exists]
  have hconnections : Sizable (s.maxConnections.map UInt32.toUInt64) ↔ s.maxConnections ≠ some 0 := by
    rw [← met_word_iff .maxConnections, met_positive_iff]
    cases s.maxConnections with
    | none => exact ⟨fun _ => nofun, fun _ => ⟨nofun, rfl⟩⟩
    | some n =>
      have hfits : (Demand.fits .maxConnections (some n.toUInt64)).met = true := by
        refine decide_eq_true ?_
        rw [UInt32.toNat_toUInt64]
        exact n.toNat_lt_size
      have hzero : n.toUInt64 = 0 ↔ n = 0 := UInt32.toUInt64_inj (b := 0)
      simp [hzero, hfits]
  have hchannel : (s.channel.all fun text => trim text ≠ "") = true ↔
      ∀ text, s.channel = some text → ∃ c ∈ text.toList, isBlank c = false := by
    cases s.channel with
    | none => exact ⟨fun _ => nofun, fun _ => rfl⟩
    | some text =>
      constructor
      · intro h text' heq
        cases heq
        exact trim_ne_empty_iff.1 (of_decide_eq_true h)
      · exact fun h => decide_eq_true (trim_ne_empty_iff.2 (h text rfl))
  simp only [demands, cacheDemands, limitDemands, List.cons_append, List.nil_append, List.forall_mem_cons, hlevel,
    hchannel]
  constructor
  · rintro ⟨level, c₁, c₂, ttl, batch, timeout, channel, p₁, p₂, d₁, d₂, m₁, m₂, f₁, f₂, pages, firsts, -⟩
    have maxPageSize := (met_word_iff _).1 ⟨p₁, p₂⟩
    have defaultPageSize := (met_word_iff _).1 ⟨d₁, d₂⟩
    have maxFirst := (met_word_iff _).1 ⟨m₁, m₂⟩
    have defaultFirst := (met_word_iff _).1 ⟨f₁, f₂⟩
    exact {
      level, channel, maxPageSize, defaultPageSize, maxFirst, defaultFirst
      maxConnections := hconnections.1 ((met_word_iff _).1 ⟨c₁, c₂⟩)
      ttl := met_positive_iff.1 ttl
      maxBatchSize := met_positive_iff.1 batch
      fetchTimeout := met_positive_iff.1 timeout
      pageSizes := (word_le_word_iff defaultPageSize maxPageSize).1 (of_decide_eq_true pages)
      firsts := (word_le_word_iff defaultFirst maxFirst).1 (of_decide_eq_true firsts) }
  · intro h
    obtain ⟨c₁, c₂⟩ := (met_word_iff .maxConnections).2 (hconnections.2 h.maxConnections)
    obtain ⟨p₁, p₂⟩ := (met_word_iff .maxPageSize).2 h.maxPageSize
    obtain ⟨d₁, d₂⟩ := (met_word_iff .defaultPageSize).2 h.defaultPageSize
    obtain ⟨m₁, m₂⟩ := (met_word_iff .maxFirst).2 h.maxFirst
    obtain ⟨f₁, f₂⟩ := (met_word_iff .defaultFirst).2 h.defaultFirst
    exact ⟨h.level, c₁, c₂, met_positive_iff.2 h.ttl, met_positive_iff.2 h.maxBatchSize,
      met_positive_iff.2 h.fetchTimeout, h.channel, p₁, p₂, d₁, d₂, m₁, m₂, f₁, f₂,
      decide_eq_true ((word_le_word_iff h.defaultPageSize h.maxPageSize).2 h.pageSizes),
      decide_eq_true ((word_le_word_iff h.defaultFirst h.maxFirst).2 h.firsts), nofun⟩

/-! ## Settings that are accepted -/

theorem pos_getD {n : Option UInt64} {default : UInt64} (h : n ≠ some 0) (hdefault : 0 < default) :
    0 < n.getD default := by
  cases n with
  | none => exact hdefault
  | some n => exact UInt64.pos_iff_ne_zero.2 fun hzero => h (congrArg some hzero)

theorem pos_word {n : Option UInt64} {default : UInt32} (h : Sizable n) (hdefault : 0 < default) :
    0 < word default n := by
  rw [← UInt32.toUInt64_lt, toUInt64_word h]
  refine pos_getD ?_ (UInt32.toUInt64_lt.2 hdefault)
  rintro rfl
  exact absurd (h 0 rfl).1 (by decide)

end SuppliedSettings

/-- Settings that are used as they were supplied, or by their defaults: rows are kept for some time, every batch has
room, a wait that is bounded has time, and no bound of a page changes a default. -/
structure Settings.Keeps (t : Settings) (s : SuppliedSettings) : Prop where
  ttl : t.cache.ttl = s.ttl.getD 30000 ∧ 0 < t.cache.ttl
  threshold : t.cache.threshold = (s.maxBatchSize.getD 100).toNat ∧ 1 ≤ t.cache.threshold
  fetchTimeout : t.cache.fetchTimeout = s.fetchTimeout ∧ ∀ time, t.cache.fetchTimeout = some time → 0 < time
  bounds : 1 ≤ t.limits.maxPageSize ∧ 1 ≤ t.limits.maxFirst
  pageSize : t.limits.pageSize none = t.limits.defaultPageSize
  page : ∀ page, page ≠ 0 → ∃ w, t.limits.window page none = .ok w ∧ w.take = s.defaultPageSize.getD 20 ∧
    w.skip.toNat = (page.toNat - 1) * w.take.toNat
  first : t.limits.first none = t.limits.defaultFirst ∧ (t.limits.first none).toUInt64 = s.defaultFirst.getD 10

namespace SuppliedSettings

variable {s : SuppliedSettings}

/-- A default that is no greater than its bound is not changed by it. -/
theorem Admissible.pageSize_none (h : s.Admissible) : s.settledLimits.pageSize none = word 20 s.defaultPageSize :=
  clampSize_eq_self (pos_word h.defaultPageSize (by decide))
    ((word_le_word_iff h.defaultPageSize h.maxPageSize).2 h.pageSizes)

theorem Admissible.first_none (h : s.Admissible) : s.settledLimits.first none = word 10 s.defaultFirst :=
  clampSize_eq_self (pos_word h.defaultFirst (by decide))
    ((word_le_word_iff h.defaultFirst h.maxFirst).2 h.firsts)

theorem Admissible.keeps (h : s.Admissible) : s.settled.Keeps s where
  ttl := ⟨rfl, pos_getD h.ttl (by decide)⟩
  threshold := by
    have hpos : 0 < s.maxBatchSize.getD 100 := pos_getD h.maxBatchSize (by decide)
    exact ⟨Nat.max_eq_right (UInt64.lt_iff_toNat_lt.1 hpos), Nat.le_max_left ..⟩
  fetchTimeout := by
    refine ⟨rfl, fun time htime => UInt64.pos_iff_ne_zero.2 ?_⟩
    rintro rfl
    exact h.fetchTimeout htime
  bounds := ⟨pos_word h.maxPageSize (by decide), pos_word h.maxFirst (by decide)⟩
  pageSize := h.pageSize_none
  page := by
    intro page hpage
    obtain ⟨w, hw, hskip, htake, -⟩ := s.settledLimits.window_eq none hpage
    rw [h.pageSize_none] at hskip htake
    refine ⟨w, hw, UInt64.toNat_inj.1 ?_, htake ▸ hskip⟩
    rw [htake, ← UInt32.toNat_toUInt64, toUInt64_word h.defaultPageSize]
    rfl
  first := ⟨h.first_none, (congrArg UInt32.toUInt64 h.first_none).trans
    (toUInt64_word h.defaultFirst 10)⟩

/-- Settings are accepted if and only if they are admissible, and otherwise the first demand that is not met is
reported, in one order for all settings. Settings that are accepted are used as they are. -/
theorem validation (s : SuppliedSettings) :
    ((∃ t, s.check = .ok t) ↔ s.Admissible) ∧
      (∀ e, s.check = .error e ↔ ∃ d, firstUnmet s.demands = some d ∧ e = .invalid d.setting d.fault) ∧
      s.demands.map Demand.setting = [.level, .maxConnections, .maxConnections, .ttl, .maxBatchSize, .fetchTimeout,
        .channel, .maxPageSize, .maxPageSize, .defaultPageSize, .defaultPageSize, .maxFirst, .maxFirst,
        .defaultFirst, .defaultFirst, .defaultPageSize, .defaultFirst] ∧
      ∀ t, s.check = .ok t → t.Keeps s := by
  have haccepted : (∃ t, s.check = .ok t) ↔ s.Admissible := s.asks_check.exists_ok_iff.trans s.admissible_iff
  refine ⟨haccepted, fun e => s.asks_check.eq_error_iff, rfl, fun t ht => ?_⟩
  rw [s.asks_check.eq_of_ok ht]
  exact (haccepted.1 ⟨t, ht⟩).keeps

/-- Lowering a bound alone makes a default too great; lowering both is accepted. -/
theorem validation_lowered :
    check { maxPageSize := some 5 } = .error (.invalid .defaultPageSize (.above .maxPageSize 5)) ∧
      ∃ t, check { maxPageSize := some 5, defaultPageSize := some 5, channel := some " a\n" } = .ok t ∧
        t.channel = "a" ∧ t.Keeps { maxPageSize := some 5, defaultPageSize := some 5, channel := some " a\n" } :=
  ⟨((validation _).2.1 _).2 ⟨_, rfl, rfl⟩, _, rfl, by decide, (validation _).2.2.2 _ rfl⟩

end SuppliedSettings

end ReadThrough
