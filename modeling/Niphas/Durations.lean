import Niphas.Lib.Render

/-!
# Configured durations

`humantime_serde` of `config.rs`: the timeouts and intervals of the configuration are written as a
number with a unit.  A number of minutes or hours is multiplied in 64 bits, and a product that does
not fit wraps, or panics where arithmetic is checked: `parseDuration_exact` says that nothing else
goes wrong.

Which of the two it does depends on the build, so the parser has a parameter for that, and the
results hold of both.  What a text stands for is given apart from the parser (`IsDuration`): a
decimal number, white space, and one of the units `s`, `m` and `h` or none, with white space around
it.  The number is not bounded there.  The parser is exact on a text if it returns the duration that
is written, refuses a number that does not fit, and refuses whatever is no duration.

Serialising writes whole seconds, so a duration comes back if it is one of whole seconds.  Those
with a fraction are never read from a configuration.

* `ExactDuration` — what is read is what is written.
* `parseDuration_exact` — just where the product does not overflow.
-/

namespace Niphas

/-- `std::time::Duration`. -/
structure Duration where
  secs : UInt64
  nanos : Fin 1000000000
  deriving DecidableEq

/-- `Duration::from_secs`: the durations of whole seconds. -/
def Duration.fromSecs (secs : UInt64) : Duration := { secs, nanos := 0 }

/-- `serialize`: `{}s` of `as_secs`. -/
def serializeDuration (duration : Duration) : String := Nat.repr duration.secs.toNat ++ "s"

/-! ## The parser -/

/-- How `parse_duration` can fail: with a message, or in a multiplication that is checked. -/
inductive DurationFault where
  | err (msg : String)
  | panic
  deriving DecidableEq

/-- `a * b` on `u64`.  With overflow checks, as in a debug build, it panics where the product does
not fit; without them, as in a release build, it wraps. -/
def mulU64 (overflowChecks : Bool) (a b : UInt64) : Except DurationFault UInt64 :=
  if overflowChecks = true ∧ 2 ^ 64 ≤ a.toNat * b.toNat then .error .panic else .ok (a * b)

/-- One arm for a unit: `s` is the whole text and `number` what stands before the unit. -/
def parseUnits (s number : String) (toSecs : UInt64 → Except DurationFault UInt64) :
    Except DurationFault Duration :=
  match Str.parseU64 (Str.trim number) with
  | .ok n => (toSecs (UInt64.ofNat n)).map Duration.fromSecs
  | .error e => .error (.err ("invalid duration '" ++ s ++ "': " ++ e))

/-- `parse_duration`. -/
def parseDuration (overflowChecks : Bool) (s : String) : Except DurationFault Duration :=
  let s := Str.trim s
  match Str.stripSuffix 's' s with
  | some secs => parseUnits s secs .ok
  | none =>
      match Str.stripSuffix 'm' s with
      | some mins => parseUnits s mins fun m => mulU64 overflowChecks m 60
      | none =>
          match Str.stripSuffix 'h' s with
          | some hours => parseUnits s hours fun h => mulU64 overflowChecks h 3600
          | none =>
              -- no unit: the whole text is the number
              match Str.parseU64 s with
              | .ok n => .ok (.fromSecs (UInt64.ofNat n))
              | .error _ => .error (.err
                  ("invalid duration '" ++ s ++ "': expected format like '300s', '5m', '1h'"))

/-! ## Durations as they are written -/

/-- What a number is a number of. -/
inductive DurationUnit where
  | bare
  | seconds
  | minutes
  | hours
  deriving DecidableEq

namespace DurationUnit

/-- How the unit is written. -/
def suffix : DurationUnit → List Char
  | bare => []
  | seconds => ['s']
  | minutes => ['m']
  | hours => ['h']

/-- How many seconds it has. -/
def inSeconds : DurationUnit → ℕ
  | bare => 1
  | seconds => 1
  | minutes => 60
  | hours => 3600

end DurationUnit

/-- A decimal number, white space and a unit. -/
def IsDuration (cs : List Char) (n : ℕ) (u : DurationUnit) : Prop :=
  ∃ number space, cs = number ++ space ++ u.suffix ∧ Str.IsDecimal number n ∧
    ∀ c ∈ space, Str.isWhitespace c = true

/-- What is read is what is written, to the second, and what is too long is refused. -/
structure ExactDuration (overflowChecks : Bool) (s : String) : Prop where
  exact : ∀ d, parseDuration overflowChecks s = .ok d →
    ∃ n u, IsDuration (Str.trim s).toList n u ∧ d.secs.toNat = n * u.inSeconds ∧ d.nanos = 0
  too_large : ∀ n u, IsDuration (Str.trim s).toList n u → 2 ^ 64 ≤ n * u.inSeconds →
    ∃ msg, parseDuration overflowChecks s = .error (.err msg)
  no_panic : parseDuration overflowChecks s ≠ .error .panic

/-- The number fits into 64 bits, and the seconds it stands for do not. -/
def Overflows (s : String) : Prop :=
  ∃ n u, IsDuration (Str.trim s).toList n u ∧ n < 2 ^ 64 ∧ 2 ^ 64 ≤ n * u.inSeconds

/-! ## What is read -/

/-- The unit a text ends in. -/
def unitOf (cs : List Char) : DurationUnit :=
  match cs.getLast? with
  | some 's' => .seconds
  | some 'm' => .minutes
  | some 'h' => .hours
  | _ => .bare

/-- What stands before the unit. -/
def numberOf (cs : List Char) : List Char := if unitOf cs = .bare then cs else cs.dropLast

/-- A number of units, in seconds. -/
def toSeconds (overflowChecks : Bool) (u : DurationUnit) (n : UInt64) :
    Except DurationFault UInt64 :=
  match u with
  | .bare => .ok n
  | .seconds => .ok n
  | .minutes => mulU64 overflowChecks n 60
  | .hours => mulU64 overflowChecks n 3600

/-- The message for a text without a number; `e` is the error of the number. -/
def durationError (u : DurationUnit) (s e : String) : String :=
  match u with
  | .bare => "invalid duration '" ++ s ++ "': expected format like '300s', '5m', '1h'"
  | .seconds | .minutes | .hours => "invalid duration '" ++ s ++ "': " ++ e

/-- A text is its number and its unit. -/
lemma numberOf_append_suffix (cs : List Char) : numberOf cs ++ (unitOf cs).suffix = cs := by
  have hlast : ∀ c, cs.getLast? = some c → cs.dropLast ++ [c] = cs := fun c hc =>
    List.dropLast_append_getLast? c hc
  unfold numberOf unitOf
  split
  · next hc => exact hlast 's' hc
  · next hc => exact hlast 'm' hc
  · next hc => exact hlast 'h' hc
  · exact List.append_nil cs

lemma unitOf_eq_bare {cs : List Char} (hs : cs.getLast? ≠ some 's') (hm : cs.getLast? ≠ some 'm')
    (hh : cs.getLast? ≠ some 'h') : unitOf cs = .bare := by
  unfold unitOf
  split
  · next h => exact absurd h hs
  · next h => exact absurd h hm
  · next h => exact absurd h hh
  · rfl

/-- A text that ends in a digit has no unit, and one with a unit ends in it. -/
lemma unitOf_append_suffix {cs : List Char} {u : DurationUnit}
    (hcs : u = .bare → ∃ c, cs.getLast? = some c ∧ c.isDigit = true) :
    unitOf (cs ++ u.suffix) = u := by
  cases u with
  | bare =>
      obtain ⟨c, hc, hdigit⟩ := hcs rfl
      have hne : ∀ d : Char, d.isDigit = false → cs.getLast? ≠ some d := by
        intro d hd hlast
        rw [hc] at hlast
        cases hlast
        rw [hdigit] at hd
        cases hd
      rw [DurationUnit.suffix, List.append_nil]
      exact unitOf_eq_bare (hne 's' rfl) (hne 'm' rfl) (hne 'h' rfl)
  | seconds | minutes | hours =>
      simp only [DurationUnit.suffix, unitOf, List.getLast?_concat]

/-- A trimmed text is a duration in one way at most. -/
lemma isDuration_iff {cs : List Char} (hcs : Str.Trimmed cs) {n : ℕ} {u : DurationUnit} :
    IsDuration cs n u ↔ u = unitOf cs ∧ Str.IsDecimal (Str.trimChars (numberOf cs)) n := by
  constructor
  · rintro ⟨number, space, rfl, hnumber, hspace⟩
    have hbare : u = .bare → space = [] := by
      rintro rfl
      rw [DurationUnit.suffix, List.append_nil] at hcs
      cases hlast : space.getLast? with
      | none => exact List.getLast?_eq_none_iff.mp hlast
      | some c =>
          have hend : (number ++ space).getLast? = some c := by
            rw [List.getLast?_append, hlast]
            rfl
          have hwhite := hspace c (List.mem_of_getLast? hlast)
          rw [hcs.2 c hend] at hwhite
          cases hwhite
    have hunit : unitOf (number ++ space ++ u.suffix) = u := by
      refine unitOf_append_suffix fun hu => ?_
      rw [hbare hu, List.append_nil]
      exact hnumber.exists_getLast?
    have hrest : numberOf (number ++ space ++ u.suffix) = number ++ space := by
      have happend := numberOf_append_suffix (number ++ space ++ u.suffix)
      rw [hunit] at happend
      exact List.append_cancel_right happend
    rw [hunit, hrest, Str.trimChars_append hnumber.isWhitespace hspace]
    exact ⟨rfl, hnumber⟩
  · rintro ⟨rfl, hnumber⟩
    obtain ⟨pre, post, hrest, hpre, hpost⟩ := Str.exists_trimChars (numberOf cs)
    have happend := numberOf_append_suffix cs
    rw [hrest] at happend
    have hnil : pre = [] := by
      cases pre with
      | nil => rfl
      | cons c pre =>
          have hwhite := hpre c List.mem_cons_self
          rw [hcs.1 c (happend ▸ rfl)] at hwhite
          cases hwhite
    subst hnil
    exact ⟨_, post, happend.symm, hnumber, hpost⟩

/-- The arms of `parse_duration` are one. -/
lemma parseDuration_eq (overflowChecks : Bool) (s : String) :
    parseDuration overflowChecks s =
      match Str.parseU64 (Str.trim (String.ofList (numberOf (Str.trim s).toList))) with
      | .ok n => (toSeconds overflowChecks (unitOf (Str.trim s).toList) (UInt64.ofNat n)).map
          Duration.fromSecs
      | .error e =>
          .error (.err (durationError (unitOf (Str.trim s).toList) (Str.trim s) e)) := by
  let cs := (Str.trim s).toList
  have hfirst : ∀ u : DurationUnit, u ≠ .bare → unitOf cs = u → numberOf cs = cs.dropLast := by
    rintro u hu rfl
    exact if_neg hu
  rcases eq_or_ne cs.getLast? (some 's') with hs | hs
  · have hunit : unitOf cs = .seconds := by simp only [unitOf, hs]
    rw [parseDuration, Str.stripSuffix_of_getLast? hs, hunit, hfirst .seconds (by decide) hunit]
    simp only [parseUnits]
    cases Str.parseU64 (Str.trim (String.ofList cs.dropLast)) <;> rfl
  rcases eq_or_ne cs.getLast? (some 'm') with hm | hm
  · have hunit : unitOf cs = .minutes := by simp only [unitOf, hm]
    rw [parseDuration, Str.stripSuffix_eq_none hs, Str.stripSuffix_of_getLast? hm, hunit,
      hfirst .minutes (by decide) hunit]
    simp only [parseUnits]
    cases Str.parseU64 (Str.trim (String.ofList cs.dropLast)) <;> rfl
  rcases eq_or_ne cs.getLast? (some 'h') with hh | hh
  · have hunit : unitOf cs = .hours := by simp only [unitOf, hh]
    rw [parseDuration, Str.stripSuffix_eq_none hs, Str.stripSuffix_eq_none hm,
      Str.stripSuffix_of_getLast? hh, hunit, hfirst .hours (by decide) hunit]
    simp only [parseUnits]
    cases Str.parseU64 (Str.trim (String.ofList cs.dropLast)) <;> rfl
  · have hunit : unitOf cs = .bare := unitOf_eq_bare hs hm hh
    have hnumber : Str.trim (String.ofList (numberOf cs)) = Str.trim s := by
      rw [numberOf, if_pos hunit, String.ofList_toList, Str.trim_trim]
    rw [parseDuration, Str.stripSuffix_eq_none hs, Str.stripSuffix_eq_none hm,
      Str.stripSuffix_eq_none hh, hunit, hnumber]
    simp only
    cases Str.parseU64 (Str.trim s) <;> rfl

/-! ## Products that fit -/

/-- The seconds are exact where they fit. -/
lemma toSeconds_of_lt (overflowChecks : Bool) {u : DurationUnit} {n : ℕ}
    (h : n * u.inSeconds < 2 ^ 64) :
    toSeconds overflowChecks u (UInt64.ofNat n) = .ok (UInt64.ofNat (n * u.inSeconds)) := by
  have hmul : ∀ k : ℕ, n * k < 2 ^ 64 → 0 < k → k < 2 ^ 64 →
      mulU64 overflowChecks (UInt64.ofNat n) (UInt64.ofNat k) = .ok (UInt64.ofNat (n * k)) := by
    intro k hk hpos hlt
    have hn : n < 2 ^ 64 := lt_of_le_of_lt (Nat.le_mul_of_pos_right n hpos) hk
    have hfits : ¬ (overflowChecks = true ∧
        2 ^ 64 ≤ (UInt64.ofNat n).toNat * (UInt64.ofNat k).toNat) := by
      rw [UInt64.toNat_ofNat_of_lt' hn, UInt64.toNat_ofNat_of_lt' hlt]
      exact fun hover => absurd hk (Nat.not_lt.mpr hover.2)
    rw [mulU64, if_neg hfits, UInt64.ofNat_mul]
  cases u with
  | bare | seconds => exact congrArg Except.ok (congrArg UInt64.ofNat (Nat.mul_one n).symm)
  | minutes => exact hmul 60 h (by decide) (by decide)
  | hours => exact hmul 3600 h (by decide) (by decide)

/-- A multiplication has no message. -/
lemma toSeconds_ne_err (overflowChecks : Bool) (u : DurationUnit) (n : UInt64) (msg : String) :
    toSeconds overflowChecks u n ≠ .error (.err msg) := by
  have hmul : ∀ k, mulU64 overflowChecks n k ≠ .error (.err msg) := by
    intro k
    rw [mulU64]
    split
    · exact nofun
    · exact nofun
  cases u with
  | bare | seconds => exact nofun
  | minutes => exact hmul 60
  | hours => exact hmul 3600

/-! ## What goes wrong -/

lemma trimmed_trim (s : String) : Str.Trimmed (Str.trim s).toList := by
  rw [Str.trim, String.toList_ofList]
  exact Str.trimmed_trimChars s.toList

/-- A duration whose number fits is read as a product. -/
lemma parseDuration_of_isDuration (overflowChecks : Bool) {s : String} {n : ℕ} {u : DurationUnit}
    (h : IsDuration (Str.trim s).toList n u) (hn : n < 2 ^ 64) :
    parseDuration overflowChecks s
      = (toSeconds overflowChecks u (UInt64.ofNat n)).map Duration.fromSecs := by
  obtain ⟨rfl, hnumber⟩ := (isDuration_iff (trimmed_trim s)).mp h
  have hparse : Str.parseU64 (Str.trim (String.ofList (numberOf (Str.trim s).toList))) = .ok n := by
    rw [Str.parseU64_eq_ok, Str.trim, String.toList_ofList, String.toList_ofList]
    exact ⟨hnumber, hn⟩
  rw [parseDuration_eq, hparse]

/-- Everything else is refused. -/
lemma parseDuration_eq_err (overflowChecks : Bool) {s : String}
    (h : ∀ n u, IsDuration (Str.trim s).toList n u → 2 ^ 64 ≤ n) :
    ∃ msg, parseDuration overflowChecks s = .error (.err msg) := by
  rw [parseDuration_eq]
  cases hparse : Str.parseU64 (Str.trim (String.ofList (numberOf (Str.trim s).toList))) with
  | error e => exact ⟨_, rfl⟩
  | ok n =>
      rw [Str.parseU64_eq_ok, Str.trim, String.toList_ofList, String.toList_ofList] at hparse
      have hle := h n _ ((isDuration_iff (trimmed_trim s)).mpr ⟨rfl, hparse.1⟩)
      exact absurd hparse.2 (Nat.not_lt.mpr hle)

lemma isDuration_unique {cs : List Char} (hcs : Str.Trimmed cs) {n n' : ℕ} {u u' : DurationUnit}
    (h : IsDuration cs n u) (h' : IsDuration cs n' u') : n = n' ∧ u = u' := by
  obtain ⟨rfl, hnumber⟩ := (isDuration_iff hcs).mp h
  obtain ⟨rfl, hnumber'⟩ := (isDuration_iff hcs).mp h'
  exact ⟨hnumber.unique hnumber', rfl⟩

/-- A product that overflows is not refused. -/
lemma not_exactDuration_of_overflows {overflowChecks : Bool} {s : String} (h : Overflows s) :
    ¬ ExactDuration overflowChecks s := by
  intro hexact
  obtain ⟨n, u, hduration, hn, hlarge⟩ := h
  obtain ⟨msg, hmsg⟩ := hexact.too_large n u hduration hlarge
  rw [parseDuration_of_isDuration overflowChecks hduration hn] at hmsg
  cases hsecs : toSeconds overflowChecks u (UInt64.ofNat n) with
  | ok secs =>
      rw [hsecs] at hmsg
      cases hmsg
  | error e =>
      rw [hsecs] at hmsg
      cases hmsg
      exact toSeconds_ne_err overflowChecks u _ msg hsecs

/-- Every other text is read as it is written, or refused. -/
lemma exactDuration_of_not_overflows {overflowChecks : Bool} {s : String} (h : ¬ Overflows s) :
    ExactDuration overflowChecks s := by
  by_cases hfits : ∃ n u, IsDuration (Str.trim s).toList n u ∧ n < 2 ^ 64
  · obtain ⟨n, u, hduration, hn⟩ := hfits
    have hlt : n * u.inSeconds < 2 ^ 64 := by
      by_contra hlarge
      exact h ⟨n, u, hduration, hn, Nat.not_lt.mp hlarge⟩
    have hparse : parseDuration overflowChecks s
        = .ok (Duration.fromSecs (UInt64.ofNat (n * u.inSeconds))) := by
      rw [parseDuration_of_isDuration overflowChecks hduration hn, toSeconds_of_lt _ hlt]
      rfl
    refine ⟨fun d hd => ?_, fun n' u' hduration' hlarge => ?_, ?_⟩
    · rw [hparse] at hd
      cases hd
      exact ⟨n, u, hduration, UInt64.toNat_ofNat_of_lt' hlt, rfl⟩
    · obtain ⟨rfl, rfl⟩ := isDuration_unique (trimmed_trim s) hduration hduration'
      exact absurd hlt (Nat.not_lt.mpr hlarge)
    · rw [hparse]
      exact nofun
  · have hlarge : ∀ n u, IsDuration (Str.trim s).toList n u → 2 ^ 64 ≤ n := by
      intro n u hduration
      by_contra hlt
      exact hfits ⟨n, u, hduration, Nat.not_le.mp hlt⟩
    obtain ⟨msg, hmsg⟩ := parseDuration_eq_err overflowChecks hlarge
    refine ⟨fun d hd => ?_, fun _ _ _ _ => ⟨msg, hmsg⟩, ?_⟩
    · rw [hmsg] at hd
      cases hd
    · rw [hmsg]
      exact nofun

/-- What is serialised is a number of seconds. -/
lemma isDuration_serialize (secs : UInt64) :
    IsDuration (Str.trim (serializeDuration (Duration.fromSecs secs))).toList secs.toNat
      .seconds := by
  have hdigits : ∀ c ∈ Nat.toDigits 10 secs.toNat, c.isDigit = true := fun c hc =>
    Nat.isDigit_of_mem_toDigits (by decide) (by decide) hc
  have hchars : (serializeDuration (Duration.fromSecs secs)).toList
      = Nat.toDigits 10 secs.toNat ++ ['s'] := by
    rw [serializeDuration, String.toList_append, Nat.toList_repr]
    rfl
  have hwhite : ∀ c ∈ Nat.toDigits 10 secs.toNat ++ ['s'], Str.isWhitespace c = false := by
    intro c hc
    rcases List.mem_append.mp hc with hc | hc
    · exact Str.isWhitespace_of_isDigit (hdigits c hc)
    · rw [List.mem_singleton.mp hc]
      rfl
  have htrim : Str.trimChars (Nat.toDigits 10 secs.toNat ++ ['s'])
      = Nat.toDigits 10 secs.toNat ++ ['s'] := by
    have hnone := Str.trimChars_append hwhite fun c (hc : c ∈ []) => absurd hc List.not_mem_nil
    rwa [List.append_nil] at hnone
  rw [Str.trim, String.toList_ofList, hchars, htrim]
  refine ⟨Nat.toDigits 10 secs.toNat, [], ?_, ?_, fun c hc => absurd hc List.not_mem_nil⟩
  · rw [List.append_nil]
    rfl
  · exact ⟨_, .inl rfl, Nat.toDigits_ne_nil, hdigits, Nat.ofDigitChars_ten_toDigits⟩

lemma parseDuration_serialize (overflowChecks : Bool) (secs : UInt64) :
    parseDuration overflowChecks (serializeDuration (Duration.fromSecs secs))
      = .ok (Duration.fromSecs secs) := by
  rw [parseDuration_of_isDuration overflowChecks (isDuration_serialize secs) secs.toNat_lt,
    UInt64.ofNat_toNat]
  rfl

/-- Durations are exact but for products that overflow, and a duration of whole seconds is read
back. -/
theorem parseDuration_exact (overflowChecks : Bool) (s : String) (secs : UInt64) :
    (ExactDuration overflowChecks s ↔ ¬ Overflows s) ∧
      parseDuration overflowChecks (serializeDuration (Duration.fromSecs secs))
        = .ok (Duration.fromSecs secs) := by
  refine ⟨⟨fun hexact hover => ?_, exactDuration_of_not_overflows⟩,
    parseDuration_serialize overflowChecks secs⟩
  exact not_exactDuration_of_overflows hover hexact

/-- The first number of minutes that is too large: a release build takes it for 44 seconds, and a
debug build stops. -/
theorem wrapped_minutes :
    parseDuration false "307445734561825861m" = .ok (Duration.fromSecs 44) ∧
      parseDuration true "307445734561825861m" = .error .panic ∧
        ¬ ExactDuration false "307445734561825861m" ∧
          ¬ ExactDuration true "307445734561825861m" := by
  have hduration : IsDuration (Str.trim "307445734561825861m").toList 307445734561825861 .minutes :=
    ⟨"307445734561825861".toList, [], by decide, ⟨_, .inl rfl, by decide, by decide, by decide⟩,
      by decide⟩
  have hnot : ∀ overflowChecks, ¬ ExactDuration overflowChecks "307445734561825861m" := by
    intro overflowChecks
    exact not_exactDuration_of_overflows
      ⟨307445734561825861, .minutes, hduration, by decide, by decide⟩
  exact ⟨by decide, by decide, hnot false, hnot true⟩

end Niphas
