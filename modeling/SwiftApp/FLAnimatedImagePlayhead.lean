import SwiftApp.FLAnimatedImageView
import SwiftApp.Timetable
import Mathlib.Tactic.Ring

namespace SwiftApp

open StepRun Timetable

theorem gcdLoop_eq {fuel a b : ℕ} (pos : 0 < b) (enough : b ≤ fuel) :
    gcdLoop fuel a b = some (Nat.gcd a b) := by
  induction fuel generalizing a b with
  | zero => omega
  | succ fuel ih =>
    rw [gcdLoop, if_neg (by omega)]
    dsimp only
    have less : a % b < b := Nat.mod_lt a pos
    split
    next divides => rw [Nat.gcd_eq_right (Nat.dvd_of_mod_eq_zero divides)]
    next rest =>
      rw [ih (by omega) (by omega), Nat.gcd_comm a b, Nat.gcd_rec b a, Nat.gcd_comm]

theorem gcd_eq {a b : ℕ} (a_pos : 0 < a) (b_pos : 0 < b) : gcd a b = some (Nat.gcd a b) := by
  unfold gcd
  split
  next => rw [gcdLoop_eq a_pos (by omega), Nat.gcd_comm]
  next =>
    split
    next eq => rw [eq, Nat.gcd_self]
    next => exact gcdLoop_eq b_pos (by omega)

/-- The fold finds a number that divides them all. -/
theorem foldlM_gcd {delays : List ℚ} {start : ℕ} (positive : ∀ delay ∈ delays, 0 < scaled delay)
    (start_pos : 0 < start) :
    ∃ g, delays.foldlM (fun scaledGCD value => gcd (scaled value) scaledGCD) start = some g ∧
      0 < g ∧ g ∣ start ∧ ∀ delay ∈ delays, g ∣ scaled delay := by
  induction delays generalizing start with
  | nil => exact ⟨start, rfl, start_pos, dvd_refl start, by simp⟩
  | cons delay delays ih =>
    have pos := positive delay List.mem_cons_self
    obtain ⟨g, found, g_pos, divides, divides_all⟩ :=
      ih (fun later mem => positive later (List.mem_cons_of_mem delay mem))
        (Nat.gcd_pos_of_pos_left start pos)
    refine ⟨g, ?_, g_pos, divides.trans (Nat.gcd_dvd_right ..), ?_⟩
    · rw [List.foldlM_cons, gcd_eq pos start_pos]
      exact found
    · intro later mem
      rcases List.mem_cons.mp mem with rfl | mem
      · exact divides.trans (Nat.gcd_dvd_left ..)
      · exact divides_all later mem

theorem lrint_natCast (k : ℕ) : lrint k = k := by
  have floor_eq : (k : ℚ).floor = k := by exact_mod_cast Rat.floor_intCast k
  unfold lrint
  simp [floor_eq]

theorem scaled_hundredths (k : ℕ) : scaled (k / 100) = k := by
  have whole : (k : ℚ) / 100 * kGreatestCommonDivisorPrecision = k := by
    simp only [kGreatestCommonDivisorPrecision, kFLAnimatedImageDelayTimeIntervalMinimum]
    ring
  rw [scaled, whole, lrint_natCast, Int.toNat_natCast]

/-- Every frame has a delay, in hundredths of a second, the unit of the format. -/
def Hundredths (frames : List (Option GIFProperties)) : Prop :=
  ∀ delay ∈ delayTimes frames, ∃ k : ℕ, delay = some ((k : ℚ) / 100)

namespace FLAnimatedImageView

variable {Image : Type} {source : ℕ → Image} {loopCount : ℕ} {frames : List (Option GIFProperties)}
  {image : FLAnimatedImage Image}

/-- The delay of the `j`-th frame shown. -/
def frameDelay (frames : List (Option GIFProperties)) (j : ℕ) : ℚ :=
  ((delayTimes frames)[j % frames.length]?).join.getD 0

theorem delay_hundredths (hundredths : Hundredths frames) {delay : Option ℚ}
    (mem : delay ∈ delayTimes frames) : ∃ k : ℕ, 2 ≤ k ∧ delay = some ((k : ℚ) / 100) := by
  obtain ⟨k, rfl⟩ := hundredths delay mem
  refine ⟨k, ?_, rfl⟩
  obtain ⟨i, lt, eq⟩ := List.mem_iff_getElem.mp mem
  have long := ((delayTimes_spec frames).2 i).2 ((k : ℚ) / 100) (by simp [lt, eq])
  simp only [kFLAnimatedImageDelayTimeIntervalMinimum, FLT_EPSILON] at long
  have more : (1 : ℚ) < k := by linarith
  exact_mod_cast more

theorem frameDelay_mem (some_frames : 0 < frames.length) (j : ℕ) :
    (delayTimes frames)[j % frames.length]?.join ∈ delayTimes frames := by
  have lt : j % frames.length < (delayTimes frames).length := by
    rw [(delayTimes_spec frames).1]
    exact Nat.mod_lt j some_frames
  rw [List.getElem?_eq_getElem lt]
  exact List.getElem_mem lt

theorem divisor_spec (hundredths : Hundredths frames) (some_frames : 0 < frames.length)
    (delays : image.delayTimesForIndexes = delayTimes frames) {divisor : ℚ}
    (found : image.frameDelayGreatestCommonDivisor = some divisor) :
    ∃ g : ℕ, divisor = g / 100 ∧ ∀ k : ℕ, some ((k : ℚ) / 100) ∈ delayTimes frames → g ∣ k := by
  have positive : ∀ delay ∈ (delayTimes frames).filterMap id, 0 < scaled delay := by
    intro delay mem
    obtain ⟨_, listed, rfl⟩ := List.mem_filterMap.mp mem
    obtain ⟨k, two, eq⟩ := delay_hundredths hundredths listed
    cases eq
    rw [scaled_hundredths]
    omega
  have head_mem : ((delayTimes frames).filterMap id).head?.getD 0 ∈ (delayTimes frames).filterMap id := by
    have first := frameDelay_mem some_frames 0
    obtain ⟨k, _, eq⟩ := delay_hundredths hundredths first
    rw [eq] at first
    have nonempty : (delayTimes frames).filterMap id ≠ [] :=
      List.ne_nil_of_mem (List.mem_filterMap.mpr ⟨_, first, rfl⟩)
    rw [List.head?_eq_some_head nonempty]
    exact List.head_mem nonempty
  obtain ⟨g, folded, _, _, divides⟩ := foldlM_gcd positive (positive _ head_mem)
  unfold FLAnimatedImage.frameDelayGreatestCommonDivisor at found
  dsimp only at found
  rw [delays, folded] at found
  refine ⟨g, ?_, fun k listed => ?_⟩
  · rw [← Option.some.inj found]
    simp only [kGreatestCommonDivisorPrecision, kFLAnimatedImageDelayTimeIntervalMinimum]
    norm_num
  · have each := divides _ (List.mem_filterMap.mpr ⟨_, listed, rfl⟩)
    rwa [scaled_hundredths] at each

/-- The interval of the display link is no longer than any delay, or that of a single refresh. -/
theorem tick_le (hundredths : Hundredths frames) (some_frames : 0 < frames.length)
    (delays : image.delayTimesForIndexes = delayTimes frames) {divisor duration : ℚ}
    (found : image.frameDelayGreatestCommonDivisor = some divisor) (small : duration ≤ 1 / 60) (j : ℕ) :
    duration * ((max (divisor * kDisplayRefreshRate) 1).floor.toNat : ℕ) ≤ frameDelay frames j := by
  obtain ⟨g, rfl, divides⟩ := divisor_spec hundredths some_frames delays found
  have listed := frameDelay_mem some_frames j
  obtain ⟨k, two, eq⟩ := delay_hundredths hundredths listed
  rw [eq] at listed
  have g_le : (g : ℚ) ≤ k := by exact_mod_cast Nat.le_of_dvd (by omega) (divides k listed)
  have k_ge : (2 : ℚ) ≤ k := by exact_mod_cast two
  have interval_le : (((max ((g : ℚ) / 100 * kDisplayRefreshRate) 1).floor.toNat : ℕ) : ℚ) ≤
      max ((g : ℚ) / 100 * kDisplayRefreshRate) 1 :=
    Nat.floor_le (le_trans zero_le_one (le_max_right _ _))
  rw [frameDelay, eq, Option.getD_some]
  calc duration * ((max ((g : ℚ) / 100 * kDisplayRefreshRate) 1).floor.toNat : ℕ)
      ≤ 1 / 60 * max ((g : ℚ) / 100 * kDisplayRefreshRate) 1 := by
        apply mul_le_mul small interval_le (Nat.cast_nonneg _) (by norm_num)
    _ ≤ (k : ℚ) / 100 := by
        rw [mul_max_of_nonneg _ _ (by norm_num)]
        apply max_le
        · simp only [kDisplayRefreshRate]
          linarith
        · linarith

/-- The view shows frame `r` of loop `q`, as is due after `elapsed`. -/
def Due (frames : List (Option GIFProperties)) (most : ℕ) (elapsed : ℚ) (s : FLAnimatedImageView Image)
    (q r : ℕ) : Prop :=
  q < most ∧ r < frames.length ∧ s.currentFrameIndex = r ∧ s.loopCountdown = most - q ∧
    OnTime (frameDelay frames) elapsed s.accumulator (q * frames.length + r)

/-- The last loop is over, when it is due. -/
def Over (frames : List (Option GIFProperties)) (most : ℕ) (elapsed : ℚ) (s : FLAnimatedImageView Image) :
    Prop :=
  frames.length ≤ s.currentFrameIndex ∧ s.loopCountdown = 0 ∧
    due (frameDelay frames) (most * frames.length) ≤ elapsed

theorem frameDelay_eq {q r : ℕ} (inside : r < frames.length) :
    frameDelay frames (q * frames.length + r) = ((delayTimes frames)[r]?).join.getD 0 := by
  rw [frameDelay, Nat.mul_add_mod', Nat.mod_eq_of_lt inside]

/-- The round after a refresh no longer than the delay. -/
theorem due_round {most q r : ℕ} {elapsed tick : ℚ} {s t u : FLAnimatedImageView Image}
    (small : ∀ j, tick ≤ frameDelay frames j) (word : most ≤ NSUIntegerMax)
    (was : Due frames most elapsed s q r) (index : t.currentFrameIndex = r)
    (countdown : t.loopCountdown = most - q) (waited : t.accumulator = s.accumulator + tick)
    (past : frameDelay frames (q * frames.length + r) ≤ t.accumulator)
    (round : Round frames.length (frameDelay frames (q * frames.length + r)) t u) :
    (∃ q r, Due frames most (elapsed + tick) u q r) ∨ Over frames most (elapsed + tick) u := by
  obtain ⟨q_lt, r_lt, _, _, on⟩ := was
  rw [waited] at past
  have next := on.next (small _) past
  have less : decrement t.loopCountdown = most - (q + 1) := by
    rw [countdown, decrement_eq (by omega) (by omega)]
    omega
  cases round with
  | within inside =>
    rw [index] at inside
    refine Or.inl ⟨q, r + 1, q_lt, inside, congrArg (· + 1) index, countdown, ?_⟩
    dsimp only
    rw [waited]
    exact next
  | looped beyond again =>
    have full : q * frames.length + r + 1 = (q + 1) * frames.length + 0 := by
      rw [Nat.succ_mul]
      omega
    refine Or.inl ⟨q + 1, 0, by omega, by omega, rfl, less, ?_⟩
    dsimp only
    rw [waited, ← full]
    exact next
  | ended beyond last =>
    have full : q * frames.length + r + 1 = most * frames.length := by
      rw [show most = q + 1 by omega, Nat.succ_mul]
      omega
    refine Or.inr ⟨by dsimp only; omega, last, ?_⟩
    rw [← full]
    exact next.le_elapsed

/-- A refresh no longer than any delay keeps the playhead on time. -/
theorem due_advance {most q r : ℕ} {elapsed tick : ℚ} {s t : FLAnimatedImageView Image}
    (small : ∀ j, tick ≤ frameDelay frames j) (word : most ≤ NSUIntegerMax) (nonneg : 0 ≤ tick)
    (was : Due frames most elapsed s q r) (index : t.currentFrameIndex = r)
    (countdown : t.loopCountdown = most - q) (waited : t.accumulator = s.accumulator + tick)
    {delayTime : ℚ} (delay : delayTime = frameDelay frames (q * frames.length + r)) {fuel : ℕ}
    (enough : t.accumulator < delayTime * fuel) :
    (∃ q r, Due frames most (elapsed + tick) (advance frames.length delayTime fuel t) q r) ∨
      Over frames most (elapsed + tick) (advance frames.length delayTime fuel t) := by
  obtain ⟨q_lt, r_lt, _, _, on⟩ := id was
  subst delay
  have positive := on.nonneg.trans_lt on.lt
  have once := on.once (small _)
  rw [← waited] at once
  have round (u w : FLAnimatedImageView Image)
      (was' : u = t ∨ u.accumulator < frameDelay frames (q * frames.length + r) ∧
        ((∃ q r, Due frames most (elapsed + tick) u q r) ∨ Over frames most (elapsed + tick) u))
      (_ : u.currentFrameIndex < frames.length)
      (past : frameDelay frames (q * frames.length + r) ≤ u.accumulator)
      (round : Round frames.length (frameDelay frames (q * frames.length + r)) u w) :
      w = t ∨ w.accumulator < frameDelay frames (q * frames.length + r) ∧
        ((∃ q r, Due frames most (elapsed + tick) w q r) ∨ Over frames most (elapsed + tick) w) := by
    rcases was' with rfl | ⟨early, _⟩
    · refine Or.inr ⟨?_, due_round small word was index countdown waited past round⟩
      cases round <;> exact once
    · exact absurd past (not_le.mpr early)
  have inside : t.currentFrameIndex < frames.length := index.trans_lt r_lt
  have done := advance_done frames.length positive enough
  rcases advance_invariant round fuel inside (Or.inl rfl) with eq | ⟨_, on_time⟩
  · rw [eq] at done ⊢
    have early : t.accumulator < frameDelay frames (q * frames.length + r) :=
      done.resolve_left (by omega)
    rw [waited] at early
    refine Or.inl ⟨q, r, q_lt, r_lt, index, countdown, ?_⟩
    rw [waited]
    exact on.stay nonneg early
  · exact on_time

theorem due_plays {most : ℕ} {elapsed : ℚ} {s t : FLAnimatedImageView Image} {event : ViewEvent Image}
    (hundredths : Hundredths frames) (loaded : Loaded source loopCount frames image)
    (word : most ≤ NSUIntegerMax)
    (refresh : ∀ duration, event = .displayDidRefresh duration → duration ≤ 1 / 60)
    (was : (∃ q r, Due frames most elapsed s q r) ∨ Over frames most elapsed s)
    (plays : Plays image s event t) :
    (∃ q r, Due frames most (elapsed + s.displayTime event) t q r) ∨
      Over frames most (elapsed + s.displayTime event) t := by
  have count := loaded.frameCount_eq
  have some_frames : 0 < frames.length := by
    have poster_lt := loaded.sound.poster_lt
    omega
  have at_index (q r : ℕ) (r_lt : r < frames.length) :
      image.delayTimeForIndex r = some (frameDelay frames (q * frames.length + r)) := by
    obtain ⟨k, _, eq⟩ := delay_hundredths hundredths (frameDelay_mem some_frames r)
    rw [Nat.mod_eq_of_lt r_lt] at eq
    rw [FLAnimatedImage.delayTimeForIndex, loaded.delays_eq, frameDelay_eq r_lt, eq]
    rfl
  cases plays with
  | kept still =>
    rw [still, add_zero]
    exact was
  | displayed =>
    rw [show s.displayTime .displayLayer = 0 from rfl, add_zero]
    exact was
  | skipped still missing =>
    rw [still, add_zero]
    rcases was with ⟨q, r, _, r_lt, index, _⟩ | ⟨beyond, countdown, late⟩
    · rw [index, at_index q r r_lt] at missing
      cases missing
    · exact Or.inr ⟨Nat.le_succ_of_le beyond, countdown, late⟩
  | shown nonneg inside delay found interval time =>
    rename_i duration delayTime divisor frameInterval image'
    rcases was with ⟨q, r, due⟩ | ⟨beyond, _⟩
    · have small (j : ℕ) : duration * frameInterval ≤ frameDelay frames j := by
        rw [interval]
        exact tick_le hundredths some_frames loaded.delays_eq found (refresh duration rfl) j
      obtain ⟨_, r_lt, index, countdown, on⟩ := id due
      rw [index, at_index q r r_lt] at delay
      cases delay
      rw [time, count]
      have tick_nonneg : 0 ≤ duration * frameInterval := mul_nonneg nonneg (Nat.cast_nonneg _)
      refine due_advance small word tick_nonneg due ?_ ?_ rfl rfl ?_
      · exact index
      · exact countdown
      · exact rounds_enough (on.nonneg.trans_lt on.lt) _
    · omega

/-- The time for which the refreshes of a run showed a frame. -/
def shownTime (v : FLAnimatedImageView Image) (events : List (ViewEvent Image)) : ℚ :=
  tally step displayTime v events

/-- With times as exact rationals the playhead is at the frame that is due after the time for which
frames were shown, until the last loop is over. -/
theorem playhead_on_time {address bytesPerRow optimal : ℕ} {height : ℚ} {made : FLAnimatedImage Image}
    {before : List FrameEvent} {events : List (ViewEvent Image)} {v s : FLAnimatedImageView Image}
    (init : FLAnimatedImage.initWithAnimatedGIFData address source loopCount frames bytesPerRow height
      optimal = some made)
    (used : run FLAnimatedImage.step made before = some image) (word : loopCount ≤ NSUIntegerMax)
    (new : v.showsAlready (some image) = false) (hundredths : Hundredths frames)
    (refreshes : ∀ duration, ViewEvent.displayDidRefresh duration ∈ events → duration ≤ 1 / 60)
    (keeps : ∀ event ∈ events, KeepsImage image.address event = true)
    (ran : run step v (.setAnimatedImage (some image) :: events) = some s) :
    (∃ m, m < loops loopCount * frames.length ∧ s.currentFrameIndex = m % frames.length ∧
      due (frameDelay frames) m ≤ shownTime v (.setAnimatedImage (some image) :: events) ∧
      shownTime v (.setAnimatedImage (some image) :: events) < due (frameDelay frames) (m + 1)) ∨
    (s.loopCountdown = 0 ∧ due (frameDelay frames) (loops loopCount * frames.length) ≤
      shownTime v (.setAnimatedImage (some image) :: events)) := by
  have loaded := loaded_of_run init used
  obtain ⟨u, set, rest⟩ := Option.bind_eq_some_iff.mp ran
  obtain ⟨shows, _, index, countdown, waited, _⟩ := setAnimatedImage_eq loaded.sound new set
  have some_frames : 0 < frames.length := by
    have poster_lt := loaded.sound.poster_lt
    rw [loaded.frameCount_eq] at poster_lt
    omega
  have positive (j : ℕ) : 0 < frameDelay frames j := by
    obtain ⟨k, two, eq⟩ := delay_hundredths hundredths (frameDelay_mem some_frames j)
    rw [frameDelay, eq, Option.getD_some]
    have k_pos : (0 : ℚ) < k := by exact_mod_cast (by omega : 0 < k)
    linarith
  have each : ∀ elapsed s event t, event ∈ events → step s event = some t →
      (s.Shows image ∧ ((∃ q r, Due frames (loops loopCount) elapsed s q r) ∨
        Over frames (loops loopCount) elapsed s)) →
      t.Shows image ∧ ((∃ q r, Due frames (loops loopCount) (elapsed + s.displayTime event) t q r) ∨
        Over frames (loops loopCount) (elapsed + s.displayTime event) t) := by
    intro elapsed s event t mem taken ⟨shows, was⟩
    obtain ⟨shows', plays⟩ := plays_of_step shows (keeps event mem) taken
    refine ⟨shows', due_plays hundredths loaded (loops_word word) ?_ was plays⟩
    rintro duration rfl
    exact refreshes duration mem
  have fresh : Due frames (loops loopCount) 0 u 0 0 := by
    refine ⟨loops_pos, some_frames, index, ?_, ?_⟩
    · rw [countdown, loaded.loopCount_eq]
      rfl
    · rw [waited, Nat.zero_mul]
      exact OnTime.start positive
  have total : shownTime v (.setAnimatedImage (some image) :: events) =
      0 + tally step displayTime u events := by
    rw [shownTime, tally, show step v _ = some u from set]
    rfl
  obtain ⟨_, state⟩ := run_tally each rest ⟨shows, Or.inl ⟨0, 0, fresh⟩⟩
  rw [← total] at state
  rcases state with ⟨q, r, q_lt, r_lt, index', _, on⟩ | ⟨_, past, late⟩
  · refine Or.inl ⟨q * frames.length + r, ?_, ?_, on.le_elapsed, on.elapsed_lt⟩
    · calc q * frames.length + r < (q + 1) * frames.length := by rw [Nat.succ_mul]; omega
        _ ≤ loops loopCount * frames.length := Nat.mul_le_mul_right _ q_lt
    · rw [index', Nat.mul_add_mod', Nat.mod_eq_of_lt r_lt]
  · exact Or.inr ⟨past, late⟩

theorem playhead_on_time_blinks : ∃ s,
    run step onScreen (.setAnimatedImage (some blinking) :: blinks) = some s ∧
      ((∃ m, m < loops 2 * twoFrames.length ∧ s.currentFrameIndex = m % twoFrames.length ∧
        due (frameDelay twoFrames) m ≤ shownTime onScreen (.setAnimatedImage (some blinking) :: blinks) ∧
        shownTime onScreen (.setAnimatedImage (some blinking) :: blinks) <
          due (frameDelay twoFrames) (m + 1)) ∨
      (s.loopCountdown = 0 ∧ due (frameDelay twoFrames) (loops 2 * twoFrames.length) ≤
        shownTime onScreen (.setAnimatedImage (some blinking) :: blinks))) := by
  have ran : (run step onScreen (.setAnimatedImage (some blinking) :: blinks)).isSome = true := by
    decide +kernel
  obtain ⟨s, done⟩ := Option.isSome_iff_exists.mp ran
  have tenths : delayTimes twoFrames = [some (1 / 10), some (1 / 10)] := by decide +kernel
  have hundredths : Hundredths twoFrames := by
    intro delay mem
    rw [tenths] at mem
    refine ⟨10, ?_⟩
    rw [show delay = some (1 / 10) by simpa using mem]
    norm_num
  refine ⟨s, done, playhead_on_time blinking_made run_nil (by decide) rfl hundredths ?_ (by decide) done⟩
  intro duration mem
  simp only [blinks, List.mem_cons, ViewEvent.displayDidRefresh.injEq, reduceCtorEq, List.not_mem_nil,
    or_false, false_or, or_self] at mem
  exact le_of_eq mem

end FLAnimatedImageView

end SwiftApp
