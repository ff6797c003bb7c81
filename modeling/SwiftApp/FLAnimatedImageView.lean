import SwiftApp.FLAnimatedImage
import Mathlib.Algebra.Order.Floor.Defs
import Mathlib.Data.Rat.Floor
import Mathlib.Tactic.Linarith

namespace SwiftApp

open StepRun

structure CADisplayLink where
  frameInterval : ℕ
  isPaused : Bool

/-- The image view with its layer, and the arguments `loopCompletionBlock` was called with. Times are
exact: neither the delays, which are floats, nor the accumulator, a double, is rounded. -/
structure FLAnimatedImageView (Image : Type) where
  animatedImage : Option (FLAnimatedImage Image)
  superImage : Option Image
  window : Bool
  superview : Bool
  isHidden : Bool
  alpha : ℚ
  currentFrame : Option Image
  currentFrameIndex : ℕ
  loopCountdown : ℕ
  accumulator : ℚ
  displayLink : Option CADisplayLink
  shouldAnimate : Bool
  needsDisplayWhenImageBecomesAvailable : Bool
  needsDisplay : Bool
  contents : Option Image
  loopCompletions : List ℕ

inductive ViewEvent (Image : Type)
  | setAnimatedImage (animatedImage : Option (FLAnimatedImage Image))
  | setImage (image : Option Image)
  | didMoveToSuperview (superview : Bool)
  | didMoveToWindow (window : Bool)
  | setAlpha (alpha : ℚ)
  | setHidden (hidden : Bool)
  | displayDidRefresh (duration : ℚ)
  | displayLayer
  | frame (event : FrameEvent)

def NSUIntegerMax : ℕ := 2 ^ 64 - 1

/-- `n--` for an `NSUInteger`. -/
def decrement (n : ℕ) : ℕ := (n + NSUIntegerMax) % 2 ^ 64

/-- The nearest integer, and the even one of two. -/
def lrint (x : ℚ) : ℤ :=
  let below := x.floor
  let rest := x - below
  if rest < 1 / 2 then below
  else if 1 / 2 < rest then below + 1
  else if below % 2 = 0 then below
  else below + 1

/-- The `while` loop of `gcd`; a division by zero traps. -/
def gcdLoop : ℕ → ℕ → ℕ → Option ℕ
  | 0, _, _ => none
  | fuel + 1, a, b =>
    if b = 0 then none
    else
      let remainder := a % b
      if remainder = 0 then some b else gcdLoop fuel b remainder

def gcd (a b : ℕ) : Option ℕ :=
  if a < b then gcdLoop (a + 1) b a
  else if a = b then some b
  else gcdLoop (b + 1) a b

def kGreatestCommonDivisorPrecision : ℚ := 2 / kFLAnimatedImageDelayTimeIntervalMinimum

def kDisplayRefreshRate : ℚ := 60

def scaled (delay : ℚ) : ℕ := (lrint (delay * kGreatestCommonDivisorPrecision)).toNat

def FLAnimatedImage.frameDelayGreatestCommonDivisor {Image : Type} (animatedImage : FLAnimatedImage Image) :
    Option ℚ :=
  let delays := animatedImage.delayTimesForIndexes.filterMap id
  let scaledGCD := scaled (delays.head?.getD 0)
  (delays.foldlM (fun scaledGCD value => gcd (scaled value) scaledGCD) scaledGCD).map
    fun scaledGCD => scaledGCD / kGreatestCommonDivisorPrecision

namespace FLAnimatedImageView

variable {Image : Type}

def image (s : FLAnimatedImageView Image) : Option Image :=
  if s.animatedImage.isSome then s.currentFrame else s.superImage

/-- The frame interval is that of the exact product, which the code has as a double. -/
def startAnimating (s : FLAnimatedImageView Image) : Option (FLAnimatedImageView Image) :=
  match s.animatedImage with
  | none => some s
  | some animatedImage =>
    animatedImage.frameDelayGreatestCommonDivisor.map fun divisor =>
      let frameInterval := (max (divisor * kDisplayRefreshRate) 1).floor.toNat
      { s with displayLink := some ⟨frameInterval, false⟩ }

def stopAnimating (s : FLAnimatedImageView Image) : FLAnimatedImageView Image :=
  match s.animatedImage with
  | none => s
  | some _ => { s with displayLink := s.displayLink.map fun link => { link with isPaused := true } }

def updateShouldAnimate (s : FLAnimatedImageView Image) : FLAnimatedImageView Image :=
  let isVisible := s.window && s.superview && !s.isHidden && decide (0 < s.alpha)
  { s with shouldAnimate := s.animatedImage.isSome && isVisible }

/-- What `didMoveToSuperview`, `didMoveToWindow`, `setAlpha:` and `setHidden:` end with. -/
def startOrStop (s : FLAnimatedImageView Image) : Option (FLAnimatedImageView Image) :=
  let s := s.updateShouldAnimate
  if s.shouldAnimate then s.startAnimating else some s.stopAnimating

/-- `[_animatedImage isEqual:animatedImage]`; nil is equal to nothing. -/
def showsAlready (animatedImage : Option (FLAnimatedImage Image)) (s : FLAnimatedImageView Image) : Bool :=
  s.animatedImage.any fun shown => animatedImage.any shown.isEqual

def setAnimatedImage (animatedImage : Option (FLAnimatedImage Image)) (s : FLAnimatedImageView Image) :
    Option (FLAnimatedImageView Image) :=
  if s.showsAlready animatedImage then some s
  else
    let s := match animatedImage with
      | some _ => { s with superImage := none }
      | none => s.stopAnimating
    let loopCount := (animatedImage.map FLAnimatedImage.loopCount).getD 0
    let s := { s with
      animatedImage
      currentFrame := animatedImage.bind FLAnimatedImage.posterImage
      currentFrameIndex := 0
      loopCountdown := if 0 < loopCount then loopCount else NSUIntegerMax
      accumulator := 0 }
    let s := s.updateShouldAnimate
    (if s.shouldAnimate then s.startAnimating else some s).map fun s => { s with needsDisplay := true }

def setImage (image : Option Image) (s : FLAnimatedImageView Image) : Option (FLAnimatedImageView Image) :=
  (if image.isSome then s.setAnimatedImage none else some s).map fun s => { s with superImage := image }

/-- The loop that moves the playhead. -/
def advance (frameCount : ℕ) (delayTime : ℚ) : ℕ → FLAnimatedImageView Image → FLAnimatedImageView Image
  | 0, s => s
  | fuel + 1, s =>
    if delayTime ≤ s.accumulator then
      let s := { s with
        accumulator := s.accumulator - delayTime
        currentFrameIndex := s.currentFrameIndex + 1 }
      if frameCount ≤ s.currentFrameIndex then
        let loopCountdown := decrement s.loopCountdown
        let s := { s with loopCountdown, loopCompletions := s.loopCompletions ++ [loopCountdown] }
        if s.loopCountdown = 0 then s.stopAnimating
        else
          advance frameCount delayTime fuel
            { s with currentFrameIndex := 0, needsDisplayWhenImageBecomesAvailable := true }
      else advance frameCount delayTime fuel { s with needsDisplayWhenImageBecomesAvailable := true }
    else s

def displayDidRefresh (duration : ℚ) (link : CADisplayLink) (s : FLAnimatedImageView Image) :
    FLAnimatedImageView Image :=
  if s.shouldAnimate then
    match s.animatedImage with
    | none => s
    | some animatedImage =>
      match animatedImage.delayTimeForIndex s.currentFrameIndex with
      | some delayTime =>
        let (image, animatedImage) := animatedImage.imageLazilyCachedAtIndex s.currentFrameIndex
        let s := { s with animatedImage := some animatedImage }
        match image with
        | some image =>
          let s := { s with
            currentFrame := some image
            needsDisplay := s.needsDisplay || s.needsDisplayWhenImageBecomesAvailable
            needsDisplayWhenImageBecomesAvailable := false
            accumulator := s.accumulator + duration * link.frameInterval }
          -- each round takes `delayTime` off the accumulator
          s.advance animatedImage.frameCount delayTime ((s.accumulator / delayTime).floor.toNat + 1)
        | none => s
      | none => { s with currentFrameIndex := s.currentFrameIndex + 1 }
  else s

def displayLayer (s : FLAnimatedImageView Image) : FLAnimatedImageView Image :=
  { s with contents := s.image, needsDisplay := false }

def step (s : FLAnimatedImageView Image) : ViewEvent Image → Option (FLAnimatedImageView Image)
  | .setAnimatedImage animatedImage => s.setAnimatedImage animatedImage
  | .setImage image => s.setImage image
  | .didMoveToSuperview superview => { s with superview }.startOrStop
  | .didMoveToWindow window => { s with window }.startOrStop
  | .setAlpha alpha => { s with alpha }.startOrStop
  | .setHidden hidden => { s with isHidden := hidden }.startOrStop
  | .displayDidRefresh duration =>
    match s.displayLink with
    | some link =>
      if link.isPaused = false ∧ 0 ≤ duration then some (s.displayDidRefresh duration link) else none
    | none => none
  | .displayLayer => if s.needsDisplay then some s.displayLayer else none
  | .frame event =>
    s.animatedImage.bind fun animatedImage =>
      (animatedImage.step event).map fun animatedImage => { s with animatedImage := some animatedImage }

variable {frameCount : ℕ} {delayTime : ℚ} {image start : FLAnimatedImage Image}

/-- One round of the loop that moves the playhead. -/
inductive Round (frameCount : ℕ) (delayTime : ℚ) (s : FLAnimatedImageView Image) :
    FLAnimatedImageView Image → Prop
  | within (inside : s.currentFrameIndex + 1 < frameCount) : Round frameCount delayTime s { s with
      accumulator := s.accumulator - delayTime
      currentFrameIndex := s.currentFrameIndex + 1
      needsDisplayWhenImageBecomesAvailable := true }
  | looped (past : frameCount ≤ s.currentFrameIndex + 1) (again : decrement s.loopCountdown ≠ 0) :
      Round frameCount delayTime s { s with
        accumulator := s.accumulator - delayTime
        currentFrameIndex := 0
        loopCountdown := decrement s.loopCountdown
        loopCompletions := s.loopCompletions ++ [decrement s.loopCountdown]
        needsDisplayWhenImageBecomesAvailable := true }
  | ended (past : frameCount ≤ s.currentFrameIndex + 1) (last : decrement s.loopCountdown = 0)
      (displayLink : Option CADisplayLink)
      (interval : ∀ link, s.displayLink = some link →
        ∃ link', displayLink = some link' ∧ link'.frameInterval = link.frameInterval) :
      Round frameCount delayTime s { s with
        accumulator := s.accumulator - delayTime
        currentFrameIndex := s.currentFrameIndex + 1
        loopCountdown := decrement s.loopCountdown
        loopCompletions := s.loopCompletions ++ [decrement s.loopCountdown]
        displayLink }

theorem stopAnimating_eq (s : FLAnimatedImageView Image) :
    ∃ displayLink, s.stopAnimating = { s with displayLink } ∧ ∀ link, s.displayLink = some link →
      ∃ link', displayLink = some link' ∧ link'.frameInterval = link.frameInterval := by
  unfold stopAnimating
  split
  next => exact ⟨s.displayLink, rfl, fun link eq => ⟨link, eq, rfl⟩⟩
  next => exact ⟨_, rfl, fun link eq => ⟨{ link with isPaused := true }, by rw [eq]; rfl, rfl⟩⟩

/-- What every round keeps, the loop keeps. -/
theorem advance_invariant {P : FLAnimatedImageView Image → Prop}
    (round : ∀ s t, P s → s.currentFrameIndex < frameCount → delayTime ≤ s.accumulator →
      Round frameCount delayTime s t → P t)
    (fuel : ℕ) {s : FLAnimatedImageView Image} (inside : s.currentFrameIndex < frameCount) (hs : P s) :
    P (advance frameCount delayTime fuel s) := by
  induction fuel generalizing s with
  | zero => exact hs
  | succ fuel ih =>
    unfold advance
    split
    next due =>
      dsimp only
      split
      next past =>
        split
        next last =>
          obtain ⟨displayLink, eq, interval⟩ := stopAnimating_eq { s with
            accumulator := s.accumulator - delayTime
            currentFrameIndex := s.currentFrameIndex + 1
            loopCountdown := decrement s.loopCountdown
            loopCompletions := s.loopCompletions ++ [decrement s.loopCountdown] }
          rw [eq]
          exact round s _ hs inside due (.ended past last displayLink interval)
        next again => exact ih (Nat.zero_lt_of_lt inside) (round s _ hs inside due (.looped past again))
      next within => exact ih (not_le.mp within) (round s _ hs inside due (.within (not_le.mp within)))
    next => exact hs

/-- The loop ends: either with the last loop or with less time left than the frame takes. -/
theorem advance_done (frameCount : ℕ) (positive : 0 < delayTime) {fuel : ℕ} {s : FLAnimatedImageView Image}
    (enough : s.accumulator < delayTime * fuel) :
    (advance frameCount delayTime fuel s).loopCountdown = 0 ∨
      (advance frameCount delayTime fuel s).accumulator < delayTime := by
  induction fuel generalizing s with
  | zero =>
    rw [Nat.cast_zero, mul_zero] at enough
    exact Or.inr (enough.trans positive)
  | succ fuel ih =>
    rw [Nat.cast_succ, mul_add, mul_one] at enough
    have less : s.accumulator - delayTime < delayTime * fuel := by linarith
    unfold advance
    split
    next due =>
      dsimp only
      split
      next past =>
        split
        next last =>
          obtain ⟨displayLink, eq, _⟩ := stopAnimating_eq { s with
            accumulator := s.accumulator - delayTime
            currentFrameIndex := s.currentFrameIndex + 1
            loopCountdown := decrement s.loopCountdown
            loopCompletions := s.loopCompletions ++ [decrement s.loopCountdown] }
          rw [eq]
          exact Or.inl last
        next again => exact ih less
      next inside => exact ih less
    next early => exact Or.inr (not_le.mp early)

theorem rounds_enough (positive : 0 < delayTime) (accumulator : ℚ) :
    accumulator < delayTime * ((accumulator / delayTime).floor.toNat + 1 : ℕ) := by
  have floor_lt : accumulator / delayTime < (accumulator / delayTime).floor + 1 := Int.lt_floor_add_one _
  have floor_le : (accumulator / delayTime).floor ≤ ((accumulator / delayTime).floor.toNat : ℤ) :=
    Int.self_le_toNat _
  have cast_le : ((accumulator / delayTime).floor : ℚ) ≤ ((accumulator / delayTime).floor.toNat : ℚ) := by
    exact_mod_cast floor_le
  rw [mul_comm, ← div_lt_iff₀ positive]
  push_cast
  linarith

/-- The refresh finds the frame at the playhead. -/
def findsFrame (s : FLAnimatedImageView Image) : Bool :=
  s.shouldAnimate && s.animatedImage.any fun image =>
    (image.delayTimeForIndex s.currentFrameIndex).isSome &&
      (image.imageLazilyCachedAtIndex s.currentFrameIndex).1.isSome

/-- The time for which the event shows a frame. -/
def displayTime (s : FLAnimatedImageView Image) : ViewEvent Image → ℚ
  | .displayDidRefresh duration =>
    if s.findsFrame then duration * (s.displayLink.map CADisplayLink.frameInterval).getD 0 else 0
  | _ => 0

/-- The view shows the image, and animates it at the interval of its delays. -/
structure Shows (start : FLAnimatedImage Image) (s : FLAnimatedImageView Image) : Prop where
  image : ∃ image, s.animatedImage = some image ∧ image.Sound ∧ start.SameImage image
  link : s.shouldAnimate = true → ∃ divisor link, start.frameDelayGreatestCommonDivisor = some divisor ∧
    s.displayLink = some link ∧ link.frameInterval = (max (divisor * kDisplayRefreshRate) 1).floor.toNat

/-- What an event does to the playback of an image. -/
inductive Plays (start : FLAnimatedImage Image) (s : FLAnimatedImageView Image) :
    ViewEvent Image → FLAnimatedImageView Image → Prop
  | kept {event : ViewEvent Image} (still : s.displayTime event = 0)
      (animatedImage : Option (FLAnimatedImage Image)) (superImage : Option Image)
      (window superview isHidden : Bool) (alpha : ℚ) (displayLink : Option CADisplayLink)
      (shouldAnimate : Bool) :
      Plays start s event { s with
        animatedImage, superImage, window, superview, isHidden, alpha, displayLink, shouldAnimate }
  | skipped {event : ViewEvent Image} (still : s.displayTime event = 0)
      (missing : start.delayTimeForIndex s.currentFrameIndex = none) :
      Plays start s event { s with currentFrameIndex := s.currentFrameIndex + 1 }
  | displayed : Plays start s .displayLayer { s with contents := s.currentFrame, needsDisplay := false }
  | shown {duration delayTime : ℚ} {divisor : ℚ} {frameInterval : ℕ} {image : FLAnimatedImage Image}
      (nonneg : 0 ≤ duration) (inside : s.currentFrameIndex < start.frameCount)
      (delay : start.delayTimeForIndex s.currentFrameIndex = some delayTime)
      (found : start.frameDelayGreatestCommonDivisor = some divisor)
      (interval : frameInterval = (max (divisor * kDisplayRefreshRate) 1).floor.toNat)
      (time : s.displayTime (.displayDidRefresh duration) = duration * frameInterval) :
      Plays start s (.displayDidRefresh duration) (advance start.frameCount delayTime
        (((s.accumulator + duration * frameInterval) / delayTime).floor.toNat + 1) { s with
          animatedImage := some image
          currentFrame := some (start.imageSource s.currentFrameIndex)
          needsDisplay := s.needsDisplay || s.needsDisplayWhenImageBecomesAvailable
          needsDisplayWhenImageBecomesAvailable := false
          accumulator := s.accumulator + duration * frameInterval })

theorem Shows.advance {fuel : ℕ} {s : FLAnimatedImageView Image} (shows : s.Shows start)
    (inside : s.currentFrameIndex < frameCount) : Shows start (advance frameCount delayTime fuel s) := by
  refine advance_invariant (fun s t shows _ _ round => ?_) _ inside shows
  cases round with
  | within => exact ⟨shows.image, shows.link⟩
  | looped => exact ⟨shows.image, shows.link⟩
  | ended _ _ displayLink interval =>
    refine ⟨shows.image, fun should => ?_⟩
    obtain ⟨divisor, link, found, linked, eq⟩ := shows.link should
    obtain ⟨link', linked', eq'⟩ := interval link linked
    exact ⟨divisor, link', found, linked', eq'.trans eq⟩

theorem divisor_eq (same : start.SameImage image) :
    image.frameDelayGreatestCommonDivisor = start.frameDelayGreatestCommonDivisor := by
  unfold FLAnimatedImage.frameDelayGreatestCommonDivisor
  rw [same.delayTimesForIndexes]

theorem delay_eq (same : start.SameImage image) (i : ℕ) :
    image.delayTimeForIndex i = start.delayTimeForIndex i := by
  unfold FLAnimatedImage.delayTimeForIndex
  rw [same.delayTimesForIndexes]

theorem startAnimating_eq {s t : FLAnimatedImageView Image}
    (showing : ∃ image, s.animatedImage = some image ∧ image.Sound ∧ start.SameImage image)
    (started : s.startAnimating = some t) : ∃ displayLink, t = { s with displayLink } ∧ t.Shows start := by
  obtain ⟨image, shown, sound, same⟩ := showing
  unfold startAnimating at started
  split at started
  next absent => cases shown.symm.trans absent
  next image' shown' =>
    cases shown.symm.trans shown'
    rw [divisor_eq same] at started
    obtain ⟨divisor, found, rfl⟩ := Option.map_eq_some_iff.mp started
    exact ⟨_, rfl, ⟨image, shown, sound, same⟩, fun _ => ⟨divisor, _, found, rfl, rfl⟩⟩

theorem startOrStop_eq {s t : FLAnimatedImageView Image}
    (showing : ∃ image, s.animatedImage = some image ∧ image.Sound ∧ start.SameImage image)
    (ended : s.startOrStop = some t) :
    ∃ displayLink shouldAnimate, t = { s with displayLink, shouldAnimate } ∧ t.Shows start := by
  unfold startOrStop at ended
  dsimp only at ended
  split at ended
  next =>
    obtain ⟨displayLink, rfl, shows⟩ := startAnimating_eq (s := s.updateShouldAnimate) showing ended
    exact ⟨displayLink, _, rfl, shows⟩
  next stays =>
    cases ended
    obtain ⟨displayLink, eq, _⟩ := stopAnimating_eq s.updateShouldAnimate
    rw [eq]
    exact ⟨displayLink, _, rfl, showing, fun should => absurd should stays⟩

/-- The frame that comes back for an index is that frame of the image. -/
theorem lazily_spec {i : ℕ} {found : Option Image} {image' : FLAnimatedImage Image} (sound : image.Sound)
    (same : start.SameImage image) (asked : image.imageLazilyCachedAtIndex i = (found, image')) :
    image'.Sound ∧ start.SameImage image' ∧
      ∀ frame, found = some frame → i < start.frameCount ∧ frame = start.imageSource i := by
  have taken : image.step (.imageLazilyCachedAtIndex i) = some image' := by
    show some (image.imageLazilyCachedAtIndex i).2 = some image'
    rw [asked]
  refine ⟨sound.step taken, same.trans (FLAnimatedImage.moves_of_step sound taken).sameImage, ?_⟩
  intro frame eq
  rw [← same.frameCount, ← same.imageSource]
  by_cases inside : i < image.frameCount
  · obtain ⟨_, _, _, spec, _⟩ := FLAnimatedImage.imageLazilyCachedAtIndex_spec sound inside
    have cached : image.cachedFramesForIndexes i = found := congrArg Prod.fst (spec.symm.trans asked)
    exact ⟨inside, sound.images i frame (cached.trans eq)⟩
  · unfold FLAnimatedImage.imageLazilyCachedAtIndex at asked
    rw [if_pos (by omega)] at asked
    cases asked
    cases eq

theorem displayDidRefresh_plays {duration : ℚ} {link : CADisplayLink} {s : FLAnimatedImageView Image}
    (shows : s.Shows start) (linked : s.displayLink = some link) (nonneg : 0 ≤ duration) :
    (s.displayDidRefresh duration link).Shows start ∧
      Plays start s (.displayDidRefresh duration) (s.displayDidRefresh duration link) := by
  obtain ⟨image, shown, sound, same⟩ := shows.image
  unfold displayDidRefresh
  split
  next should =>
    obtain ⟨divisor, link', divides, linked', interval⟩ := shows.link should
    cases linked.symm.trans linked'
    split
    next absent => cases shown.symm.trans absent
    next image' shown' =>
      cases shown.symm.trans shown'
      split
      next delayTime delay =>
        split
        next found image' asked =>
          obtain ⟨sound', same', spec⟩ := lazily_spec sound same asked
          dsimp only
          split
          next frame =>
            obtain ⟨inside, rfl⟩ := spec frame rfl
            have finds : s.findsFrame = true := by
              simp [findsFrame, should, shown, delay, asked]
            have time : s.displayTime (.displayDidRefresh duration) = duration * link.frameInterval := by
              simp [displayTime, finds, linked]
            refine ⟨?_, ?_⟩
            · refine Shows.advance ?_ (inside.trans_eq same'.frameCount.symm)
              exact ⟨⟨image', rfl, sound', same'⟩, fun _ => ⟨divisor, link, divides, linked, interval⟩⟩
            · rw [same'.frameCount]
              exact .shown nonneg inside ((delay_eq same _).symm.trans delay) divides interval time
          next =>
            refine ⟨⟨⟨image', rfl, sound', same'⟩, shows.link⟩, .kept ?_ (some image') s.superImage s.window
              s.superview s.isHidden s.alpha s.displayLink s.shouldAnimate⟩
            simp [displayTime, findsFrame, shown, asked]
      next missing =>
        refine ⟨⟨⟨image, shown, sound, same⟩, shows.link⟩, .skipped ?_ ((delay_eq same _).symm.trans missing)⟩
        simp [displayTime, findsFrame, shown, missing]
  next stays =>
    refine ⟨shows, .kept ?_ s.animatedImage s.superImage s.window s.superview s.isHidden s.alpha
      s.displayLink s.shouldAnimate⟩
    simp [displayTime, findsFrame, stays]

/-- The event leaves the animated image of the view alone, or sets it again. -/
def KeepsImage (address : ℕ) : ViewEvent Image → Bool
  | .setAnimatedImage animatedImage => animatedImage.any fun image => image.address = address
  | .setImage image => image.isNone
  | _ => true

theorem plays_of_step {s t : FLAnimatedImageView Image} {event : ViewEvent Image} (shows : s.Shows start)
    (keeps : KeepsImage start.address event = true) (taken : s.step event = some t) :
    t.Shows start ∧ Plays start s event t := by
  cases event with
  | setAnimatedImage animatedImage =>
    obtain ⟨image, shown, _, same⟩ := shows.image
    obtain ⟨again, rfl, address⟩ := (Option.any_eq_true _ _).mp keeps
    have already : s.showsAlready (some again) = true := by
      simpa [showsAlready, shown, FLAnimatedImage.isEqual, same.address] using
        (of_decide_eq_true address).symm
    cases (if_pos already).symm.trans taken
    exact ⟨shows, .kept rfl s.animatedImage s.superImage s.window s.superview s.isHidden s.alpha
      s.displayLink s.shouldAnimate⟩
  | setImage image =>
    cases image with
    | some => cases keeps
    | none =>
      cases taken
      exact ⟨⟨shows.image, shows.link⟩, .kept rfl s.animatedImage none s.window s.superview s.isHidden
        s.alpha s.displayLink s.shouldAnimate⟩
  | didMoveToSuperview superview =>
    obtain ⟨displayLink, shouldAnimate, rfl, shows'⟩ :=
      startOrStop_eq (s := { s with superview }) shows.image taken
    exact ⟨shows', .kept rfl s.animatedImage s.superImage s.window superview s.isHidden s.alpha
      displayLink shouldAnimate⟩
  | didMoveToWindow window =>
    obtain ⟨displayLink, shouldAnimate, rfl, shows'⟩ :=
      startOrStop_eq (s := { s with window }) shows.image taken
    exact ⟨shows', .kept rfl s.animatedImage s.superImage window s.superview s.isHidden s.alpha
      displayLink shouldAnimate⟩
  | setAlpha alpha =>
    obtain ⟨displayLink, shouldAnimate, rfl, shows'⟩ :=
      startOrStop_eq (s := { s with alpha }) shows.image taken
    exact ⟨shows', .kept rfl s.animatedImage s.superImage s.window s.superview s.isHidden alpha
      displayLink shouldAnimate⟩
  | setHidden hidden =>
    obtain ⟨displayLink, shouldAnimate, rfl, shows'⟩ :=
      startOrStop_eq (s := { s with isHidden := hidden }) shows.image taken
    exact ⟨shows', .kept rfl s.animatedImage s.superImage s.window s.superview hidden s.alpha
      displayLink shouldAnimate⟩
  | displayDidRefresh duration =>
    simp only [step] at taken
    split at taken
    next link linked =>
      obtain ⟨⟨_, nonneg⟩, rfl⟩ := guarded taken
      exact displayDidRefresh_plays shows linked nonneg
    next => cases taken
  | displayLayer =>
    obtain ⟨_, rfl⟩ := guarded taken
    obtain ⟨image, shown, _⟩ := shows.image
    refine ⟨⟨shows.image, shows.link⟩, ?_⟩
    have own : s.image = s.currentFrame := by
      rw [FLAnimatedImageView.image, shown]
      rfl
    rw [displayLayer, own]
    exact .displayed
  | frame event =>
    obtain ⟨image, shown, sound, same⟩ := shows.image
    simp only [step, shown, Option.bind_some] at taken
    obtain ⟨image', taken', rfl⟩ := Option.map_eq_some_iff.mp taken
    have same' := same.trans (FLAnimatedImage.moves_of_step sound taken').sameImage
    exact ⟨⟨⟨image', rfl, sound.step taken', same'⟩, shows.link⟩, .kept rfl (some image') s.superImage
      s.window s.superview s.isHidden s.alpha s.displayLink s.shouldAnimate⟩

/-- What the events do to the playback, one after the other, a run does. -/
theorem plays_run {Inv : FLAnimatedImageView Image → Prop} {events : List (ViewEvent Image)}
    (keeps : ∀ event ∈ events, KeepsImage start.address event = true)
    (play : ∀ s event t, s.Shows start → Plays start s event t → Inv s → Inv t)
    {s t : FLAnimatedImageView Image} (shows : s.Shows start) (inv : Inv s)
    (ran : run step s events = some t) : t.Shows start ∧ Inv t := by
  have each : ∀ s, ∀ event ∈ events, ∀ t, step s event = some t → s.Shows start ∧ Inv s →
      t.Shows start ∧ Inv t := by
    intro s event mem t taken both
    obtain ⟨shows', plays⟩ := plays_of_step both.1 (keeps event mem) taken
    exact ⟨shows', play s event t both.1 plays both.2⟩
  exact run_invariant_of_mem each ran ⟨shows, inv⟩

/-- How often an image is looped, where 0 stands for forever. -/
def loops (loopCount : ℕ) : ℕ := if 0 < loopCount then loopCount else NSUIntegerMax

theorem loops_pos {loopCount : ℕ} : 0 < loops loopCount := by
  unfold loops NSUIntegerMax
  split <;> omega

theorem loops_word {loopCount : ℕ} (word : loopCount ≤ NSUIntegerMax) : loops loopCount ≤ NSUIntegerMax := by
  unfold loops
  split <;> omega

theorem setAnimatedImage_eq {v s : FLAnimatedImageView Image} (sound : image.Sound)
    (new : v.showsAlready (some image) = false) (set : v.setAnimatedImage (some image) = some s) :
    s.Shows image ∧ s.currentFrame = image.posterImage ∧ s.currentFrameIndex = 0 ∧
      s.loopCountdown = loops image.loopCount ∧ s.accumulator = 0 ∧ s.needsDisplay = true ∧
      s.loopCompletions = v.loopCompletions := by
  have same : image.SameImage image := ⟨rfl, rfl, rfl, rfl, rfl, rfl, rfl⟩
  unfold setAnimatedImage at set
  rw [new, if_neg Bool.false_ne_true] at set
  dsimp only at set
  generalize eq : updateShouldAnimate _ = u at set
  have showing : ∃ shown, u.animatedImage = some shown ∧ shown.Sound ∧ image.SameImage shown := by
    subst eq
    exact ⟨image, rfl, sound, same⟩
  obtain ⟨t, started, rfl⟩ := Option.map_eq_some_iff.mp set
  split at started
  next =>
    obtain ⟨displayLink, rfl, shows⟩ := startAnimating_eq showing started
    subst eq
    exact ⟨⟨shows.image, shows.link⟩, rfl, rfl, rfl, rfl, rfl, rfl⟩
  next stays =>
    cases started
    subst eq
    exact ⟨⟨showing, fun should => absurd should stays⟩, rfl, rfl, rfl, rfl, rfl, rfl⟩

/-- An image as its initializer left it, and then used in any way. -/
structure Loaded (source : ℕ → Image) (loopCount : ℕ) (frames : List (Option GIFProperties))
    (image : FLAnimatedImage Image) : Prop where
  sound : image.Sound
  source_eq : image.imageSource = source
  loopCount_eq : image.loopCount = loopCount
  frameCount_eq : image.frameCount = frames.length
  delays_eq : image.delayTimesForIndexes = delayTimes frames
  poster_eq : image.posterImage = (frames.findIdx? Option.isSome).map source

theorem loaded_of_run {imageSource : ℕ → Image} {address loopCount bytesPerRow optimal : ℕ}
    {frames : List (Option GIFProperties)} {height : ℚ} {made image : FLAnimatedImage Image}
    {before : List FrameEvent}
    (init : FLAnimatedImage.initWithAnimatedGIFData address imageSource loopCount frames bytesPerRow height
      optimal = some made)
    (used : run FLAnimatedImage.step made before = some image) :
    Loaded imageSource loopCount frames image := by
  obtain ⟨source, count, loopCount_eq, delays, poster, _⟩ := FLAnimatedImage.init_fields init
  obtain ⟨sound, same⟩ := FLAnimatedImage.sound_run (FLAnimatedImage.sound_init init) used
  exact ⟨sound, same.imageSource.trans source, same.loopCount.trans loopCount_eq,
    same.frameCount.trans count, same.delayTimesForIndexes.trans delays, same.posterImage.trans poster⟩

theorem decrement_eq {n : ℕ} (positive : 0 < n) (word : n ≤ NSUIntegerMax) : decrement n = n - 1 := by
  unfold decrement NSUIntegerMax at *
  omega

/-- `k` loops of `most` are over, and each was reported. -/
def Looped (most : ℕ) (before : List ℕ) (k : ℕ) (s : FLAnimatedImageView Image) : Prop :=
  k ≤ most ∧ s.loopCountdown = most - k ∧
    s.loopCompletions = before ++ (List.range k).map (fun i => most - 1 - i)

theorem looped_succ {most k : ℕ} {before : List ℕ} {s : FLAnimatedImageView Image}
    (looped : Looped most before k s) (word : most ≤ NSUIntegerMax) (more : k < most) :
    decrement s.loopCountdown = most - (k + 1) ∧ s.loopCompletions ++ [decrement s.loopCountdown] =
      before ++ (List.range (k + 1)).map (fun i => most - 1 - i) := by
  obtain ⟨_, countdown, completions⟩ := looped
  have next : decrement s.loopCountdown = most - 1 - k := by
    rw [countdown, decrement_eq (by omega) (by omega)]
    omega
  refine ⟨by omega, ?_⟩
  rw [next, completions, List.range_succ, List.map_append, List.append_assoc]
  rfl

theorem looped_plays {most : ℕ} {before : List ℕ} {s t : FLAnimatedImageView Image}
    {event : ViewEvent Image} (word : most ≤ NSUIntegerMax) (plays : Plays start s event t)
    (looped : ∃ k, Looped most before k s ∧ (s.currentFrameIndex < start.frameCount → k < most)) :
    ∃ k, Looped most before k t ∧ (t.currentFrameIndex < start.frameCount → k < most) := by
  cases plays with
  | kept => exact looped
  | displayed => exact looped
  | skipped =>
    obtain ⟨k, looped, more⟩ := looped
    exact ⟨k, looped, fun inside => more (Nat.lt_of_succ_lt inside)⟩
  | shown _ inside =>
    refine advance_invariant (P := fun t => ∃ k, Looped most before k t ∧
      (t.currentFrameIndex < start.frameCount → k < most)) ?_ _ inside looped
    intro s t looped inside _ round
    obtain ⟨k, looped, more⟩ := looped
    have next := looped_succ looped word (more inside)
    cases round with
    | within => exact ⟨k, looped, fun _ => more inside⟩
    | looped _ again => exact ⟨k + 1, ⟨more inside, next⟩, fun _ => by omega⟩
    | ended past => exact ⟨k + 1, ⟨more inside, next⟩, fun within => absurd within (not_lt.mpr past)⟩

/-- The completion block hears of every loop once, of the last one with 0, and of none after it. -/
theorem completions_count_down {imageSource : ℕ → Image} {address loopCount bytesPerRow optimal : ℕ}
    {frames : List (Option GIFProperties)} {height : ℚ} {made image : FLAnimatedImage Image}
    {before : List FrameEvent} {events : List (ViewEvent Image)} {v s : FLAnimatedImageView Image}
    (init : FLAnimatedImage.initWithAnimatedGIFData address imageSource loopCount frames bytesPerRow height
      optimal = some made)
    (used : run FLAnimatedImage.step made before = some image) (word : loopCount ≤ NSUIntegerMax)
    (new : v.showsAlready (some image) = false)
    (keeps : ∀ event ∈ events, KeepsImage image.address event = true)
    (ran : run step v (.setAnimatedImage (some image) :: events) = some s) :
    ∃ k, k ≤ loops loopCount ∧ s.loopCountdown = loops loopCount - k ∧
      s.loopCompletions = v.loopCompletions ++ (List.range k).map (fun i => loops loopCount - 1 - i) ∧
      (s.currentFrameIndex < frames.length → k < loops loopCount) := by
  have loaded := loaded_of_run init used
  obtain ⟨u, set, rest⟩ := Option.bind_eq_some_iff.mp ran
  obtain ⟨shows, _, _, countdown, _, _, completions⟩ := setAnimatedImage_eq loaded.sound new set
  rw [loaded.loopCount_eq] at countdown
  have fresh : ∃ k, Looped (loops loopCount) v.loopCompletions k u ∧
      (u.currentFrameIndex < image.frameCount → k < loops loopCount) :=
    ⟨0, ⟨Nat.zero_le _, countdown, by simp [completions]⟩, fun _ => loops_pos⟩
  obtain ⟨_, k, ⟨le, countdown', completions'⟩, more⟩ :=
    plays_run keeps (fun s event t _ plays => looped_plays (loops_word word) plays) shows fresh rest
  rw [loaded.frameCount_eq] at more
  exact ⟨k, le, countdown', completions', more⟩

/-- A view on the screen that shows nothing yet. -/
def onScreen : FLAnimatedImageView ℕ where
  animatedImage := none
  superImage := none
  window := true
  superview := true
  isHidden := false
  alpha := 1
  currentFrame := none
  currentFrameIndex := 0
  loopCountdown := 0
  accumulator := 0
  displayLink := none
  shouldAnimate := false
  needsDisplayWhenImageBecomesAvailable := false
  needsDisplay := false
  contents := none
  loopCompletions := []

def twoFrames : List (Option GIFProperties) := [some FLAnimatedImage.everyTenth, some FLAnimatedImage.everyTenth]

/-- Two frames, shown twice. -/
def blinking : FLAnimatedImage ℕ :=
  (FLAnimatedImage.initWithAnimatedGIFData 0 id 2 twoFrames 400 100 0).get rfl

theorem blinking_made :
    FLAnimatedImage.initWithAnimatedGIFData 0 id 2 twoFrames 400 100 0 = some blinking :=
  (Option.some_get _).symm

/-- The second frame comes after the first refresh, and two refreshes are enough for a loop. -/
def blinks : List (ViewEvent ℕ) :=
  [.displayDidRefresh (1 / 60), .frame (.produce true), .frame .deliver, .displayDidRefresh (1 / 60),
    .didMoveToWindow false, .didMoveToWindow true, .displayDidRefresh (1 / 60), .displayDidRefresh (1 / 60),
    .displayLayer]

theorem completions_count_down_blinks : ∃ s,
    run step onScreen (.setAnimatedImage (some blinking) :: blinks) = some s ∧
      s.loopCompletions = [1, 0] ∧
      ∃ k, k ≤ loops 2 ∧ s.loopCountdown = loops 2 - k ∧
        s.loopCompletions = onScreen.loopCompletions ++ (List.range k).map (fun i => loops 2 - 1 - i) ∧
        (s.currentFrameIndex < twoFrames.length → k < loops 2) := by
  have ran : (run step onScreen (.setAnimatedImage (some blinking) :: blinks)).any
      (fun s => s.loopCompletions = [1, 0]) = true := by decide +kernel
  obtain ⟨s, done, completions⟩ := Option.any_eq_true _ _ |>.mp ran
  exact ⟨s, done, of_decide_eq_true completions,
    completions_count_down blinking_made run_nil (by decide) rfl (by decide) done⟩

/-- `j` is the first frame there is from `i` on. -/
def NextFrame (start : FLAnimatedImage Image) (i j : ℕ) : Prop :=
  i ≤ j ∧ (start.delayTimeForIndex j).isSome = true ∧
    ∀ k, i ≤ k → k < j → start.delayTimeForIndex k = none

/-- The layer shows the current frame, unless a display is pending, and the current frame is the one
at the playhead, unless it is to be displayed when it becomes available. -/
structure Painted (start : FLAnimatedImage Image) (s : FLAnimatedImageView Image) : Prop where
  contents : s.needsDisplay = false → s.contents = s.currentFrame
  frame : s.needsDisplayWhenImageBecomesAvailable = false →
    ∀ j, NextFrame start s.currentFrameIndex j → s.currentFrame = some (start.imageSource j)
  own : ∀ frame, s.currentFrame = some frame → ∃ i, i < start.frameCount ∧ frame = start.imageSource i

theorem Painted.round {s t : FLAnimatedImageView Image}
    (outside : ∀ i, start.frameCount ≤ i → start.delayTimeForIndex i = none) (painted : s.Painted start)
    (round : Round start.frameCount delayTime s t) : t.Painted start := by
  cases round with
  | within => exact ⟨painted.contents, fun clean => Bool.noConfusion clean, painted.own⟩
  | looped => exact ⟨painted.contents, fun clean => Bool.noConfusion clean, painted.own⟩
  | ended past =>
    refine ⟨painted.contents, fun _ j next => ?_, painted.own⟩
    obtain ⟨le, there, _⟩ := next
    rw [outside j (past.trans le)] at there
    cases there

theorem Painted.plays {s t : FLAnimatedImageView Image} {event : ViewEvent Image}
    (outside : ∀ i, start.frameCount ≤ i → start.delayTimeForIndex i = none) (painted : s.Painted start)
    (plays : Plays start s event t) : t.Painted start := by
  cases plays with
  | kept => exact ⟨painted.contents, painted.frame, painted.own⟩
  | displayed => exact ⟨fun _ => rfl, painted.frame, painted.own⟩
  | skipped _ missing =>
    refine ⟨painted.contents, fun clean j next => painted.frame clean j ?_, painted.own⟩
    obtain ⟨le, there, before⟩ := next
    refine ⟨Nat.le_of_succ_le le, there, fun k from_k to_k => ?_⟩
    rcases Nat.eq_or_lt_of_le from_k with rfl | after
    · exact missing
    · exact before k after to_k
  | shown _ inside delay =>
    refine advance_invariant (fun s t painted _ _ round => painted.round outside round) _ inside ?_
    refine ⟨fun clean => ?_, fun _ j next => ?_, fun frame eq => ⟨_, inside, (Option.some.inj eq).symm⟩⟩
    · obtain ⟨displayed, available⟩ := Bool.or_eq_false_iff.mp clean
      have here : NextFrame start s.currentFrameIndex s.currentFrameIndex :=
        ⟨le_refl _, by rw [delay]; rfl, fun k from_k to_k => by omega⟩
      exact (painted.contents displayed).trans (painted.frame available _ here)
    · obtain ⟨le, _, before⟩ := next
      rcases Nat.eq_or_lt_of_le le with rfl | after
      · rfl
      · rw [before _ (le_refl _) after] at delay
        cases delay

theorem Loaded.delay_isSome {source : ℕ → Image} {loopCount : ℕ} {frames : List (Option GIFProperties)}
    (loaded : Loaded source loopCount frames image) (i : ℕ) :
    (image.delayTimeForIndex i).isSome = (frames[i]?).join.isSome := by
  rw [FLAnimatedImage.delayTimeForIndex, loaded.delays_eq]
  exact ((delayTimes_spec frames).2 i).1

theorem Loaded.outside {source : ℕ → Image} {loopCount : ℕ} {frames : List (Option GIFProperties)}
    (loaded : Loaded source loopCount frames image) (i : ℕ) (past : image.frameCount ≤ i) :
    image.delayTimeForIndex i = none := by
  have missing := loaded.delay_isSome i
  rw [List.getElem?_eq_none (by rwa [← loaded.frameCount_eq])] at missing
  exact Option.not_isSome_iff_eq_none.mp (by simp [missing])

/-- The poster image is the first frame there is. -/
theorem Loaded.poster {source : ℕ → Image} {loopCount : ℕ} {frames : List (Option GIFProperties)}
    (loaded : Loaded source loopCount frames image) {j : ℕ} (next : NextFrame image 0 j) :
    image.posterImage = some (image.imageSource j) := by
  obtain ⟨_, there, before⟩ := next
  rw [loaded.delay_isSome] at there
  have first : frames.findIdx? Option.isSome = some j := by
    have lt : j < frames.length := by
      by_contra outside
      rw [List.getElem?_eq_none (not_lt.mp outside)] at there
      cases there
    rw [List.findIdx?_eq_some_iff_getElem]
    refine ⟨lt, ?_, fun k less => ?_⟩
    · simpa [lt] using there
    · have missing := loaded.delay_isSome k
      rw [before k (Nat.zero_le k) less] at missing
      simpa [lt.trans' less] using missing.symm
  rw [loaded.poster_eq, first, loaded.source_eq]
  rfl

/-- Whenever no display of the layer is pending it shows the current frame of the view, and that is
a frame of its image. -/
theorem layer_up_to_date {imageSource : ℕ → Image} {address loopCount bytesPerRow optimal : ℕ}
    {frames : List (Option GIFProperties)} {height : ℚ} {made image : FLAnimatedImage Image}
    {before : List FrameEvent} {events : List (ViewEvent Image)} {v s : FLAnimatedImageView Image}
    (init : FLAnimatedImage.initWithAnimatedGIFData address imageSource loopCount frames bytesPerRow height
      optimal = some made)
    (used : run FLAnimatedImage.step made before = some image)
    (new : v.showsAlready (some image) = false)
    (keeps : ∀ event ∈ events, KeepsImage image.address event = true)
    (ran : run step v (.setAnimatedImage (some image) :: events) = some s)
    (clean : s.needsDisplay = false) :
    s.contents = s.image ∧ ∀ frame, s.contents = some frame →
      ∃ i, i < frames.length ∧ frame = imageSource i := by
  have loaded := loaded_of_run init used
  obtain ⟨u, set, rest⟩ := Option.bind_eq_some_iff.mp ran
  obtain ⟨shows, frame, index, _, _, pending, _⟩ := setAnimatedImage_eq loaded.sound new set
  have fresh : u.Painted image := by
    refine ⟨fun clean => ?_, fun _ j next => ?_, fun shown eq => ?_⟩
    · rw [pending] at clean
      cases clean
    · rw [index] at next
      rw [frame]
      exact loaded.poster next
    · rw [frame, loaded.poster_eq] at eq
      obtain ⟨i, found, rfl⟩ := Option.map_eq_some_iff.mp eq
      obtain ⟨lt, _⟩ := List.findIdx?_eq_some_iff_getElem.mp found
      exact ⟨i, by rwa [loaded.frameCount_eq], by rw [loaded.source_eq]⟩
  obtain ⟨shows', painted⟩ :=
    plays_run keeps (fun s event t _ plays painted => Painted.plays loaded.outside painted plays)
      shows fresh rest
  obtain ⟨shown, animated, _⟩ := shows'.image
  have current : s.image = s.currentFrame := by
    rw [FLAnimatedImageView.image, animated]
    rfl
  refine ⟨(painted.contents clean).trans current.symm, fun shown eq => ?_⟩
  rw [painted.contents clean] at eq
  obtain ⟨i, lt, same⟩ := painted.own shown eq
  exact ⟨i, by rwa [← loaded.frameCount_eq], by rw [same, loaded.source_eq]⟩

theorem layer_up_to_date_blinks : ∃ s,
    run step onScreen (.setAnimatedImage (some blinking) :: blinks) = some s ∧
      s.contents = s.image ∧ ∀ frame, s.contents = some frame →
        ∃ i, i < twoFrames.length ∧ frame = id i := by
  have ran : (run step onScreen (.setAnimatedImage (some blinking) :: blinks)).any
      (fun s => s.needsDisplay = false) = true := by decide +kernel
  obtain ⟨s, done, clean⟩ := Option.any_eq_true _ _ |>.mp ran
  exact ⟨s, done,
    layer_up_to_date blinking_made run_nil rfl (by decide) done (of_decide_eq_true clean)⟩

/-- The playhead leaves the frames with the last loop, or past a last frame that is missing. -/
def WithinOrOver (start : FLAnimatedImage Image) (s : FLAnimatedImageView Image) : Prop :=
  start.frameCount ≤ s.currentFrameIndex →
    s.loopCountdown = 0 ∨ start.delayTimeForIndex (start.frameCount - 1) = none

theorem withinOrOver_plays {s t : FLAnimatedImageView Image} {event : ViewEvent Image}
    (inv : WithinOrOver start s) (plays : Plays start s event t) : WithinOrOver start t := by
  cases plays with
  | kept => exact inv
  | displayed => exact inv
  | skipped _ missing =>
    intro past
    by_cases inside : s.currentFrameIndex < start.frameCount
    · have last : s.currentFrameIndex = start.frameCount - 1 :=
        Nat.le_antisymm (Nat.le_sub_one_of_lt inside) (Nat.sub_le_of_le_add past)
      rw [last] at missing
      exact Or.inr missing
    · exact inv (not_lt.mp inside)
  | shown _ inside =>
    refine advance_invariant (P := WithinOrOver start) ?_ _ inside fun past => absurd inside (not_lt.mpr past)
    intro s t inv inside _ round
    cases round with
    | within within => exact fun past => absurd within (not_lt.mpr past)
    | looped => exact fun past => absurd (Nat.zero_lt_of_lt inside) (not_lt.mpr past)
    | ended _ last => exact fun _ => Or.inl last

/-- Beyond the last frame nothing moves but the playhead. -/
theorem beyond_plays {s t : FLAnimatedImageView Image} {event : ViewEvent Image}
    (beyond : start.frameCount ≤ s.currentFrameIndex) (plays : Plays start s event t) :
    start.frameCount ≤ t.currentFrameIndex ∧ t.currentFrame = s.currentFrame ∧
      t.loopCountdown = s.loopCountdown ∧ t.loopCompletions = s.loopCompletions := by
  cases plays with
  | kept => exact ⟨beyond, rfl, rfl, rfl⟩
  | displayed => exact ⟨beyond, rfl, rfl, rfl⟩
  | skipped => exact ⟨Nat.le_succ_of_le beyond, rfl, rfl, rfl⟩
  | shown _ inside => exact absurd inside (not_lt.mpr beyond)

/-- The playhead gets beyond the frames only with the last loop or past a last frame that is missing,
and then the view stays at its frame. -/
theorem beyond_the_frames {imageSource : ℕ → Image} {address loopCount bytesPerRow optimal : ℕ}
    {frames : List (Option GIFProperties)} {height : ℚ} {made image : FLAnimatedImage Image}
    {before : List FrameEvent} {events later : List (ViewEvent Image)}
    {v s t : FLAnimatedImageView Image}
    (init : FLAnimatedImage.initWithAnimatedGIFData address imageSource loopCount frames bytesPerRow height
      optimal = some made)
    (used : run FLAnimatedImage.step made before = some image)
    (new : v.showsAlready (some image) = false)
    (keeps : ∀ event ∈ events ++ later, KeepsImage image.address event = true)
    (ran : run step v (.setAnimatedImage (some image) :: events) = some s)
    (beyond : frames.length ≤ s.currentFrameIndex) (ran' : run step s later = some t) :
    (s.loopCountdown = 0 ∨ (frames[frames.length - 1]?).join = none) ∧
      frames.length ≤ t.currentFrameIndex ∧ t.currentFrame = s.currentFrame ∧
      t.loopCountdown = s.loopCountdown ∧ t.loopCompletions = s.loopCompletions := by
  have loaded := loaded_of_run init used
  have keeps_events : ∀ event ∈ events, KeepsImage image.address event = true :=
    fun event mem => keeps event (List.mem_append_left later mem)
  have keeps_later : ∀ event ∈ later, KeepsImage image.address event = true :=
    fun event mem => keeps event (List.mem_append_right events mem)
  obtain ⟨u, set, rest⟩ := Option.bind_eq_some_iff.mp ran
  obtain ⟨shows, _, index, _⟩ := setAnimatedImage_eq loaded.sound new set
  have fresh : WithinOrOver image u := by
    intro past
    have some_frames := loaded.sound.poster_lt
    omega
  obtain ⟨shows', within⟩ :=
    plays_run keeps_events (fun s event t _ plays inv => withinOrOver_plays inv plays) shows fresh rest
  rw [← loaded.frameCount_eq] at beyond ⊢
  refine ⟨(within beyond).imp_right fun missing => ?_, ?_⟩
  · have same := loaded.delay_isSome (image.frameCount - 1)
    rw [missing] at same
    exact Option.not_isSome_iff_eq_none.mp (by simp [← same])
  · have stays : ∀ u event w, u.Shows image → Plays image u event w →
        (image.frameCount ≤ u.currentFrameIndex ∧ u.currentFrame = s.currentFrame ∧
          u.loopCountdown = s.loopCountdown ∧ u.loopCompletions = s.loopCompletions) →
        image.frameCount ≤ w.currentFrameIndex ∧ w.currentFrame = s.currentFrame ∧
          w.loopCountdown = s.loopCountdown ∧ w.loopCompletions = s.loopCompletions := by
      intro u event w _ plays ⟨beyond, frame, countdown, completions⟩
      obtain ⟨beyond', frame', countdown', completions'⟩ := beyond_plays beyond plays
      exact ⟨beyond', frame'.trans frame, countdown'.trans countdown, completions'.trans completions⟩
    exact (plays_run keeps_later stays shows' ⟨beyond, rfl, rfl, rfl⟩ ran').2

theorem beyond_the_frames_blinks : ∃ s t,
    run step onScreen (.setAnimatedImage (some blinking) :: blinks) = some s ∧
      run step s [.setHidden true, .setHidden false, .displayDidRefresh (1 / 60)] = some t ∧
      (s.loopCountdown = 0 ∨ (twoFrames[1]?).join = none) ∧
      2 ≤ t.currentFrameIndex ∧ t.currentFrame = s.currentFrame ∧ t.loopCountdown = s.loopCountdown ∧
      t.loopCompletions = s.loopCompletions := by
  have ran : (run step onScreen (.setAnimatedImage (some blinking) :: blinks)).any (fun s =>
      2 ≤ s.currentFrameIndex ∧ (run step s
        [.setHidden true, .setHidden false, .displayDidRefresh (1 / 60)]).isSome = true) = true := by
    decide +kernel
  obtain ⟨s, done, both⟩ := Option.any_eq_true _ _ |>.mp ran
  obtain ⟨beyond, more⟩ := of_decide_eq_true both
  obtain ⟨t, done'⟩ := Option.isSome_iff_exists.mp more
  exact ⟨s, t, done, done',
    beyond_the_frames blinking_made run_nil rfl (by decide) done beyond done'⟩

end FLAnimatedImageView

end SwiftApp
