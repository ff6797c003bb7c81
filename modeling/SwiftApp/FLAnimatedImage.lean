import SwiftApp.StepRun
import Mathlib.Algebra.Order.Field.Rat
import Mathlib.Data.List.Induction
import Mathlib.Order.Interval.Finset.Nat
import Mathlib.Tactic.NormNum

namespace SwiftApp

open StepRun

/-- What the image source tells about a frame it can decode. -/
structure GIFProperties where
  unclampedDelayTime : Option ℚ
  delayTime : Option ℚ

/-- The animated image, with the frames the serial queue is still to produce, the produced ones
that wait for the main queue, and the delayed calls after memory warnings. -/
structure FLAnimatedImage (Image : Type) where
  address : ℕ
  imageSource : ℕ → Image
  loopCount : ℕ
  frameCount : ℕ
  delayTimesForIndexes : List (Option ℚ)
  posterImage : Option Image
  posterImageFrameIndex : ℕ
  frameCacheSizeOptimal : ℕ
  frameCacheSizeMax : ℕ
  frameCacheSizeMaxInternal : ℕ
  requestedFrameIndex : ℕ
  cachedFramesForIndexes : ℕ → Option Image
  cachedFrameIndexes : Finset ℕ
  requestedFrameIndexes : Finset ℕ
  memoryWarningCount : ℕ
  serialQueue : List ℕ
  mainQueue : List (ℕ × Image)
  growRequests : ℕ
  resetRequests : ℕ

inductive FrameEvent
  | imageLazilyCachedAtIndex (index : ℕ)
  | produce (succeeds : Bool)
  | deliver
  | didReceiveMemoryWarning
  | growFrameCacheSizeAfterMemoryWarning
  | resetFrameCacheSizeMaxInternal
  | setFrameCacheSizeMax (size : ℕ)
deriving DecidableEq

def kFLAnimatedImageDelayTimeIntervalMinimum : ℚ := 1 / 50

def kDelayTimeIntervalDefault : ℚ := 1 / 10

def FLT_EPSILON : ℚ := 1 / 2 ^ 23

def MEGABYTE : ℚ := 1024 * 1024

/-- The delay of frame `i`, where `preceding` is that of the frame before. -/
def frameDelayTime (i : ℕ) (preceding : Option ℚ) (framePropertiesGIF : GIFProperties) : ℚ :=
  let delayTime := match framePropertiesGIF.unclampedDelayTime with
    | some delayTime => some delayTime
    | none => framePropertiesGIF.delayTime
  let delayTime := match delayTime with
    | some delayTime => some delayTime
    | none => if i = 0 then some kDelayTimeIntervalDefault else preceding
  -- the float value of `nil` is 0
  let floatValue := delayTime.getD 0
  if floatValue < kFLAnimatedImageDelayTimeIntervalMinimum - FLT_EPSILON then kDelayTimeIntervalDefault
  else floatValue

/-- The loop over the frames; dropped frames have no properties and get no delay. -/
def delayTimes (frames : List (Option GIFProperties)) : List (Option ℚ) :=
  frames.foldl (fun delays frame =>
    delays ++ [frame.map (frameDelayTime delays.length (delays[delays.length - 1]?).join)]) []

theorem delayTimes_concat (frames : List (Option GIFProperties)) (frame : Option GIFProperties) :
    delayTimes (frames ++ [frame]) = delayTimes frames ++ [frame.map (frameDelayTime
      (delayTimes frames).length ((delayTimes frames)[(delayTimes frames).length - 1]?).join)] := by
  unfold delayTimes
  rw [List.foldl_append]
  rfl

theorem frameDelayTime_ge {i : ℕ} {preceding : Option ℚ} {properties : GIFProperties} :
    kFLAnimatedImageDelayTimeIntervalMinimum - FLT_EPSILON ≤ frameDelayTime i preceding properties := by
  have default_ge : kFLAnimatedImageDelayTimeIntervalMinimum - FLT_EPSILON ≤ kDelayTimeIntervalDefault := by
    simp only [kFLAnimatedImageDelayTimeIntervalMinimum, FLT_EPSILON, kDelayTimeIntervalDefault]
    norm_num
  unfold frameDelayTime
  dsimp only
  generalize Option.getD _ (0 : ℚ) = floatValue
  by_cases short : floatValue < kFLAnimatedImageDelayTimeIntervalMinimum - FLT_EPSILON
  · rw [if_pos short]
    exact default_ge
  · rw [if_neg short]
    exact not_lt.mp short

/-- The loop gives each frame that could be decoded a delay, and no other. -/
theorem delayTimes_spec (frames : List (Option GIFProperties)) :
    (delayTimes frames).length = frames.length ∧
      ∀ i : ℕ, (((delayTimes frames)[i]?).join.isSome = ((frames[i]?).join).isSome) ∧
        ∀ delayTime, ((delayTimes frames)[i]?).join = some delayTime →
          kFLAnimatedImageDelayTimeIntervalMinimum - FLT_EPSILON ≤ delayTime := by
  induction frames using List.reverseRecOn with
  | nil => exact ⟨rfl, fun i => by simp [delayTimes]⟩
  | append_singleton frames frame ih =>
    obtain ⟨length, each⟩ := ih
    rw [delayTimes_concat]
    refine ⟨by simp [length], fun i => ?_⟩
    rcases Nat.lt_trichotomy i frames.length with before | rfl | after
    · rw [List.getElem?_append_left (by omega), List.getElem?_append_left before]
      exact each i
    · rw [List.getElem?_append_right (by omega), List.getElem?_append_right (le_refl _), length]
      cases frame with
      | none => simp
      | some properties =>
        refine ⟨by simp, fun delayTime eq => ?_⟩
        simp only [Nat.sub_self, Option.map_some, List.getElem?_cons_zero, Option.join_some,
          Option.some.injEq] at eq
        rw [← eq]
        exact frameDelayTime_ge
    · have outside : (frames ++ [frame])[i]? = none := List.getElem?_eq_none (by simp; omega)
      rw [outside, List.getElem?_eq_none (by simp; omega)]
      simp

namespace FLAnimatedImage

variable {Image : Type}

def initWithAnimatedGIFData (address : ℕ) (imageSource : ℕ → Image) (loopCount : ℕ)
    (frames : List (Option GIFProperties)) (bytesPerRow : ℕ) (height : ℚ)
    (optimalFrameCacheSize : ℕ) : Option (FLAnimatedImage Image) :=
  let frameCount := frames.length
  let skippedFrameCount := frames.countP Option.isNone
  let poster := frames.findIdx? Option.isSome
  if frameCount = 0 then none
  else
    let animatedImageDataSize := match poster with
      | some _ => bytesPerRow * height * (frameCount - skippedFrameCount) / MEGABYTE
      | none => 0
    let frameCacheSizeOptimal :=
      if optimalFrameCacheSize = 0 then
        if animatedImageDataSize ≤ 10 then frameCount
        else if animatedImageDataSize ≤ 75 then 5
        else 1
      else optimalFrameCacheSize
    some {
      address, imageSource, loopCount, frameCount
      delayTimesForIndexes := delayTimes frames
      posterImage := poster.map imageSource
      posterImageFrameIndex := poster.getD 0
      frameCacheSizeOptimal := min frameCacheSizeOptimal frameCount
      frameCacheSizeMax := 0
      frameCacheSizeMaxInternal := 0
      requestedFrameIndex := 0
      cachedFramesForIndexes := fun i => if poster = some i then some (imageSource i) else none
      cachedFrameIndexes := poster.toFinset
      requestedFrameIndexes := ∅
      memoryWarningCount := 0
      serialQueue := []
      mainQueue := []
      growRequests := 0
      resetRequests := 0 }

/-- `isEqual:` of NSObject, which compares the objects themselves. -/
def isEqual (s t : FLAnimatedImage Image) : Bool := s.address = t.address

def delayTimeForIndex (s : FLAnimatedImage Image) (i : ℕ) : Option ℚ := (s.delayTimesForIndexes[i]?).join

def frameCacheSizeCurrent (s : FLAnimatedImage Image) : ℕ :=
  let frameCacheSizeCurrent := s.frameCacheSizeOptimal
  let frameCacheSizeCurrent :=
    if 0 < s.frameCacheSizeMax then min frameCacheSizeCurrent s.frameCacheSizeMax
    else frameCacheSizeCurrent
  if 0 < s.frameCacheSizeMaxInternal then min frameCacheSizeCurrent s.frameCacheSizeMaxInternal
  else frameCacheSizeCurrent

def frameIndexesToCache (s : FLAnimatedImage Image) : Finset ℕ :=
  if s.frameCacheSizeCurrent = s.frameCount then Finset.range s.frameCount
  else
    let firstLength := min s.frameCacheSizeCurrent (s.frameCount - s.requestedFrameIndex)
    let secondLength := s.frameCacheSizeCurrent - firstLength
    insert s.posterImageFrameIndex
      (Finset.Ico s.requestedFrameIndex (s.requestedFrameIndex + firstLength) ∪ Finset.range secondLength)

def purgeFrameCacheIfNeeded (s : FLAnimatedImage Image) : FLAnimatedImage Image :=
  if s.frameCacheSizeCurrent < s.cachedFrameIndexes.card then
    let indexesToPurge := s.cachedFrameIndexes \ s.frameIndexesToCache
    { s with
      cachedFrameIndexes := s.cachedFrameIndexes \ indexesToPurge
      cachedFramesForIndexes := fun i => if i ∈ indexesToPurge then none else s.cachedFramesForIndexes i }
  else s

def setFrameCacheSizeMax (size : ℕ) (s : FLAnimatedImage Image) : FLAnimatedImage Image :=
  if s.frameCacheSizeMax ≠ size then
    let willFrameCacheSizeShrink := size < s.frameCacheSizeCurrent
    let t := { s with frameCacheSizeMax := size }
    if willFrameCacheSizeShrink then t.purgeFrameCacheIfNeeded else t
  else s

def setFrameCacheSizeMaxInternal (size : ℕ) (s : FLAnimatedImage Image) : FLAnimatedImage Image :=
  if s.frameCacheSizeMaxInternal ≠ size then
    let willFrameCacheSizeShrink := size < s.frameCacheSizeCurrent
    let t := { s with frameCacheSizeMaxInternal := size }
    if willFrameCacheSizeShrink then t.purgeFrameCacheIfNeeded else t
  else s

/-- First the frames from the requested one on, then those before it. -/
def addFrameIndexesToCache (frameIndexesToAddToCache : Finset ℕ) (s : FLAnimatedImage Image) :
    FLAnimatedImage Image :=
  let firstRange := List.range' s.requestedFrameIndex (s.frameCount - s.requestedFrameIndex)
  let secondRange := List.range s.requestedFrameIndex
  { s with
    requestedFrameIndexes := s.requestedFrameIndexes ∪ frameIndexesToAddToCache
    serialQueue := s.serialQueue ++ firstRange.filter (· ∈ frameIndexesToAddToCache) ++
      secondRange.filter (· ∈ frameIndexesToAddToCache) }

def imageLazilyCachedAtIndex (index : ℕ) (s : FLAnimatedImage Image) :
    Option Image × FLAnimatedImage Image :=
  if s.frameCount ≤ index then (none, s)
  else
    let s := { s with requestedFrameIndex := index }
    let s :=
      if s.cachedFrameIndexes.card < s.frameCount then
        let frameIndexesToAddToCache :=
          ((s.frameIndexesToCache \ s.cachedFrameIndexes) \ s.requestedFrameIndexes).erase
            s.posterImageFrameIndex
        if 0 < frameIndexesToAddToCache.card then s.addFrameIndexesToCache frameIndexesToAddToCache
        else s
      else s
    (s.cachedFramesForIndexes index, s.purgeFrameCacheIfNeeded)

def growFrameCacheSizeAfterMemoryWarning (frameCacheSize : ℕ) (s : FLAnimatedImage Image) :
    FLAnimatedImage Image :=
  let t := s.setFrameCacheSizeMaxInternal frameCacheSize
  { t with resetRequests := t.resetRequests + 1 }

def resetFrameCacheSizeMaxInternal (s : FLAnimatedImage Image) : FLAnimatedImage Image :=
  s.setFrameCacheSizeMaxInternal 0

/-- The delayed calls are forwarded by the weak proxy and stand under the image itself, so that the
two cancellations, which name the proxy, find none of them. -/
def didReceiveMemoryWarning (s : FLAnimatedImage Image) : FLAnimatedImage Image :=
  let s := { s with memoryWarningCount := s.memoryWarningCount + 1 }
  let s := s.setFrameCacheSizeMaxInternal 1
  let kGrowAttemptsMax := 2
  if s.memoryWarningCount - 1 ≤ kGrowAttemptsMax then { s with growRequests := s.growRequests + 1 } else s

def step (s : FLAnimatedImage Image) : FrameEvent → Option (FLAnimatedImage Image)
  | .imageLazilyCachedAtIndex index => some (s.imageLazilyCachedAtIndex index).2
  | .produce succeeds => match s.serialQueue with
    | [] => none
    | i :: later =>
      let image := if succeeds then some (s.imageSource i) else none
      some { s with serialQueue := later, mainQueue := s.mainQueue ++ (image.map (i, ·)).toList }
  | .deliver => match s.mainQueue with
    | [] => none
    | (i, image) :: later =>
      some { s with
        mainQueue := later
        cachedFramesForIndexes := Function.update s.cachedFramesForIndexes i (some image)
        cachedFrameIndexes := insert i s.cachedFrameIndexes
        requestedFrameIndexes := s.requestedFrameIndexes.erase i }
  | .didReceiveMemoryWarning => some s.didReceiveMemoryWarning
  | .growFrameCacheSizeAfterMemoryWarning =>
    if 0 < s.growRequests then
      some (({ s with growRequests := s.growRequests - 1 } : FLAnimatedImage
        Image).growFrameCacheSizeAfterMemoryWarning 2)
    else none
  | .resetFrameCacheSizeMaxInternal =>
    if 0 < s.resetRequests then
      some ({ s with resetRequests := s.resetRequests - 1 } : FLAnimatedImage
        Image).resetFrameCacheSizeMaxInternal
    else none
  | .setFrameCacheSizeMax size => some (s.setFrameCacheSizeMax size)

def inFlight (s : FLAnimatedImage Image) : List ℕ := s.serialQueue ++ s.mainQueue.map Prod.fst

/-- The cache and its index set agree, and each frame is cached or requested but not both, and
under way once at most. -/
structure Sound (s : FLAnimatedImage Image) : Prop where
  optimal_pos : 0 < s.frameCacheSizeOptimal
  optimal_le : s.frameCacheSizeOptimal ≤ s.frameCount
  requested_lt : s.requestedFrameIndex < s.frameCount
  poster_lt : s.posterImageFrameIndex < s.frameCount
  keys : ∀ i, (s.cachedFramesForIndexes i).isSome = true ↔ i ∈ s.cachedFrameIndexes
  images : ∀ i image, s.cachedFramesForIndexes i = some image → image = s.imageSource i
  produced : ∀ p ∈ s.mainQueue, p.2 = s.imageSource p.1
  poster : s.posterImage.isSome = true → s.posterImageFrameIndex ∈ s.cachedFrameIndexes
  inside : ∀ i, i ∈ s.cachedFrameIndexes ∨ i ∈ s.requestedFrameIndexes → i < s.frameCount
  apart : ∀ i ∈ s.requestedFrameIndexes, i ∉ s.cachedFrameIndexes
  once : s.inFlight.Nodup
  listed : ∀ i ∈ s.inFlight, i ∈ s.requestedFrameIndexes

theorem frameCacheSizeCurrent_pos {s : FLAnimatedImage Image} (optimal : 0 < s.frameCacheSizeOptimal) :
    0 < s.frameCacheSizeCurrent := by
  unfold frameCacheSizeCurrent
  grind

theorem frameCacheSizeCurrent_le {s : FLAnimatedImage Image} :
    s.frameCacheSizeCurrent ≤ s.frameCacheSizeOptimal := by
  unfold frameCacheSizeCurrent
  grind

theorem card_window_le (poster start first second : ℕ) :
    (insert poster (Finset.Ico start (start + first) ∪ Finset.range second)).card ≤ first + second + 1 := by
  have inserted := Finset.card_insert_le poster (Finset.Ico start (start + first) ∪ Finset.range second)
  have joined := Finset.card_union_le (Finset.Ico start (start + first)) (Finset.range second)
  rw [Nat.card_Ico, Finset.card_range] at joined
  omega

/-- The window has the requested frame and the poster image, and one frame more than the size of
the cache at most. -/
theorem frameIndexesToCache_spec {s : FLAnimatedImage Image} (sound : s.Sound) :
    s.requestedFrameIndex ∈ s.frameIndexesToCache ∧ s.posterImageFrameIndex ∈ s.frameIndexesToCache ∧
      s.frameIndexesToCache.card ≤ s.frameCacheSizeCurrent + 1 := by
  have pos := frameCacheSizeCurrent_pos sound.optimal_pos
  have requested_lt := sound.requested_lt
  have poster_lt := sound.poster_lt
  unfold frameIndexesToCache
  split
  next all =>
    refine ⟨Finset.mem_range.mpr requested_lt, Finset.mem_range.mpr poster_lt, ?_⟩
    rw [Finset.card_range]
    omega
  next =>
    have first_pos : 0 < min s.frameCacheSizeCurrent (s.frameCount - s.requestedFrameIndex) := by omega
    refine ⟨?_, Finset.mem_insert_self .., ?_⟩
    · refine Finset.mem_insert_of_mem (Finset.mem_union_left _ (Finset.mem_Ico.mpr ?_))
      omega
    · refine (card_window_le ..).trans ?_
      omega

theorem lt_frameCount_of_mem_frameIndexesToCache {s : FLAnimatedImage Image} {i : ℕ} (sound : s.Sound)
    (listed : i ∈ s.frameIndexesToCache) : i < s.frameCount := by
  have current_le := frameCacheSizeCurrent_le (s := s)
  have optimal_le := sound.optimal_le
  have poster_lt := sound.poster_lt
  unfold frameIndexesToCache at listed
  split at listed
  next => exact Finset.mem_range.mp listed
  next =>
    simp only [Finset.mem_insert, Finset.mem_union, Finset.mem_Ico, Finset.mem_range] at listed
    omega

/-- A cache of which neither the requested frame nor the poster image was purged. -/
structure Recached (s : FLAnimatedImage Image) (cached : Finset ℕ) (frames : ℕ → Option Image) :
    Prop where
  sub : cached ⊆ s.cachedFrameIndexes
  requested : s.requestedFrameIndex ∈ s.cachedFrameIndexes → s.requestedFrameIndex ∈ cached
  poster : s.posterImageFrameIndex ∈ s.cachedFrameIndexes → s.posterImageFrameIndex ∈ cached
  frames : ∀ i, frames i = if i ∈ cached then s.cachedFramesForIndexes i else none

theorem Sound.recached {s : FLAnimatedImage Image} {cached : Finset ℕ} {frames : ℕ → Option Image}
    (sound : s.Sound) (recached : s.Recached cached frames) :
    Sound { s with cachedFrameIndexes := cached, cachedFramesForIndexes := frames } where
  optimal_pos := sound.optimal_pos
  optimal_le := sound.optimal_le
  requested_lt := sound.requested_lt
  poster_lt := sound.poster_lt
  keys i := by
    show (frames i).isSome = true ↔ i ∈ cached
    rw [recached.frames]
    split
    next kept =>
      have before := (sound.keys i).mpr (recached.sub kept)
      simp [before, kept]
    next purged => simp [purged]
  images i image shown := by
    have kept := (recached.frames i).symm.trans shown
    split at kept
    next => exact sound.images i image kept
    next => cases kept
  produced := sound.produced
  poster shown := recached.poster (sound.poster shown)
  inside i listed := sound.inside i (listed.imp_left fun kept => recached.sub kept)
  apart i requested kept := sound.apart i requested (recached.sub kept)
  once := sound.once
  listed := sound.listed

theorem Recached.refl {s : FLAnimatedImage Image} (sound : s.Sound) :
    s.Recached s.cachedFrameIndexes s.cachedFramesForIndexes := by
  refine ⟨Finset.Subset.refl _, id, id, fun i => ?_⟩
  split
  next => rfl
  next absent => simpa [absent] using sound.keys i

theorem purge_recached {s : FLAnimatedImage Image} (sound : s.Sound) :
    ∃ cached frames, s.purgeFrameCacheIfNeeded =
        { s with cachedFrameIndexes := cached, cachedFramesForIndexes := frames } ∧
      s.Recached cached frames ∧ cached.card ≤ s.frameCacheSizeCurrent + 1 := by
  obtain ⟨requested, poster, card⟩ := frameIndexesToCache_spec sound
  unfold purgeFrameCacheIfNeeded
  split
  next full =>
    refine ⟨_, _, rfl, ⟨Finset.sdiff_subset, fun cached => ?_, fun cached => ?_, fun i => ?_⟩, ?_⟩
    · simp [cached, requested]
    · simp [cached, poster]
    · by_cases cached : i ∈ s.cachedFrameIndexes
      · simp only [Finset.mem_sdiff, cached, true_and, not_not]
        split <;> simp_all
      · have absent := sound.keys i
        simp_all
    · refine (Finset.card_le_card fun i listed => ?_).trans card
      simp only [Finset.mem_sdiff, not_and, not_not] at listed
      exact listed.2 listed.1
  next room => exact ⟨_, _, rfl, Recached.refl sound, by omega⟩

theorem purge_if_recached {s : FLAnimatedImage Image} (sound : s.Sound) (shrinks : Prop)
    [Decidable shrinks] : ∃ cached frames,
      (if shrinks then s.purgeFrameCacheIfNeeded else s) =
        { s with cachedFrameIndexes := cached, cachedFramesForIndexes := frames } ∧
      s.Recached cached frames := by
  split
  next =>
    obtain ⟨cached, frames, eq, recached, _⟩ := purge_recached sound
    exact ⟨cached, frames, eq, recached⟩
  next => exact ⟨_, _, rfl, Recached.refl sound⟩

theorem setFrameCacheSizeMax_recached {s : FLAnimatedImage Image} (sound : s.Sound) (size : ℕ) :
    ∃ cached frames, s.setFrameCacheSizeMax size = { s with
        frameCacheSizeMax := size, cachedFrameIndexes := cached, cachedFramesForIndexes := frames } ∧
      s.Recached cached frames := by
  have sound' : Sound { s with frameCacheSizeMax := size } := { sound with }
  unfold setFrameCacheSizeMax
  split
  next =>
    obtain ⟨cached, frames, eq, recached⟩ := purge_if_recached sound' (size < s.frameCacheSizeCurrent)
    exact ⟨cached, frames, eq, { recached with }⟩
  next same =>
    have same' : s.frameCacheSizeMax = size := not_not.mp same
    subst same'
    exact ⟨_, _, rfl, Recached.refl sound⟩

theorem setFrameCacheSizeMaxInternal_recached {s : FLAnimatedImage Image} (sound : s.Sound) (size : ℕ) :
    ∃ cached frames, s.setFrameCacheSizeMaxInternal size = { s with
        frameCacheSizeMaxInternal := size, cachedFrameIndexes := cached, cachedFramesForIndexes := frames } ∧
      s.Recached cached frames := by
  have sound' : Sound { s with frameCacheSizeMaxInternal := size } := { sound with }
  unfold setFrameCacheSizeMaxInternal
  split
  next =>
    obtain ⟨cached, frames, eq, recached⟩ := purge_if_recached sound' (size < s.frameCacheSizeCurrent)
    exact ⟨cached, frames, eq, { recached with }⟩
  next same =>
    have same' : s.frameCacheSizeMaxInternal = size := not_not.mp same
    subst same'
    exact ⟨_, _, rfl, Recached.refl sound⟩

/-- The order in which missing frames are produced. -/
def productionOrder (s : FLAnimatedImage Image) (indexes : Finset ℕ) : List ℕ :=
  (List.range' s.requestedFrameIndex (s.frameCount - s.requestedFrameIndex)).filter (· ∈ indexes) ++
    (List.range s.requestedFrameIndex).filter (· ∈ indexes)

theorem mem_productionOrder {s : FLAnimatedImage Image} {indexes : Finset ℕ} {i : ℕ}
    (requested : s.requestedFrameIndex < s.frameCount) :
    i ∈ s.productionOrder indexes ↔ i ∈ indexes ∧ i < s.frameCount := by
  simp only [productionOrder, List.mem_append, List.mem_filter, List.mem_range'_1, List.mem_range,
    decide_eq_true_eq, ← or_and_right]
  rw [and_comm]
  refine and_congr_right fun _ => ?_
  omega

theorem productionOrder_nodup {s : FLAnimatedImage Image} {indexes : Finset ℕ} :
    (s.productionOrder indexes).Nodup := by
  refine List.nodup_append.mpr ⟨(List.nodup_range' ..).filter _, List.nodup_range.filter _, ?_⟩
  intro i first j second
  simp only [List.mem_filter, List.mem_range'_1, List.mem_range] at first second
  omega

theorem addFrameIndexesToCache_eq (s : FLAnimatedImage Image) (added : Finset ℕ) :
    s.addFrameIndexesToCache added = { s with
      requestedFrameIndexes := s.requestedFrameIndexes ∪ added
      serialQueue := s.serialQueue ++ s.productionOrder added } := by
  simp [addFrameIndexesToCache, productionOrder]

theorem Sound.addFrameIndexesToCache {s : FLAnimatedImage Image} {added : Finset ℕ} (sound : s.Sound)
    (new : ∀ i ∈ added, i < s.frameCount ∧ i ∉ s.cachedFrameIndexes ∧ i ∉ s.requestedFrameIndexes) :
    (s.addFrameIndexesToCache added).Sound := by
  rw [addFrameIndexesToCache_eq]
  have order (i : ℕ) (listed : i ∈ s.productionOrder added) : i ∈ added :=
    ((mem_productionOrder sound.requested_lt).mp listed).1
  refine { sound with inside := ?_, apart := ?_, once := ?_, listed := ?_ }
  · intro i listed
    rcases listed with cached | requested
    · exact sound.inside i (Or.inl cached)
    · rcases Finset.mem_union.mp requested with old | added
      · exact sound.inside i (Or.inr old)
      · exact (new i added).1
  · intro i requested
    rcases Finset.mem_union.mp requested with old | added
    · exact sound.apart i old
    · exact (new i added).2.1
  · have apart : s.inFlight.Disjoint (s.productionOrder added) := by
      intro i old listed
      exact (new i (order i listed)).2.2 (sound.listed i old)
    have together : (s.inFlight ++ s.productionOrder added).Nodup :=
      List.nodup_append'.mpr ⟨sound.once, productionOrder_nodup, apart⟩
    refine (List.Perm.nodup_iff ?_).mpr together
    simp only [inFlight, List.append_assoc]
    exact List.Perm.append_left _ List.perm_append_comm
  · intro i listed
    simp only [inFlight, List.append_assoc, List.mem_append] at listed
    rcases listed with old | added | delivered
    · exact Finset.mem_union_left _ (sound.listed i (List.mem_append_left _ old))
    · exact Finset.mem_union_right _ (order i added)
    · exact Finset.mem_union_left _ (sound.listed i (List.mem_append_right _ delivered))

/-- What a request does: the missing frames of the window are put into production, and the answer
is what is cached. -/
theorem imageLazilyCachedAtIndex_spec {s : FLAnimatedImage Image} {index : ℕ} (sound : s.Sound)
    (inside : index < s.frameCount) :
    ∃ added cached frames, s.imageLazilyCachedAtIndex index = (s.cachedFramesForIndexes index, { s with
        requestedFrameIndex := index
        requestedFrameIndexes := s.requestedFrameIndexes ∪ added
        serialQueue := s.serialQueue ++ productionOrder { s with requestedFrameIndex := index } added
        cachedFrameIndexes := cached
        cachedFramesForIndexes := frames }) ∧
      (∀ i ∈ added, i < s.frameCount ∧ i ∉ s.cachedFrameIndexes ∧ i ∉ s.requestedFrameIndexes) ∧
      (index ∈ s.cachedFrameIndexes ∨ index ∈ s.requestedFrameIndexes ∪ added ∨
        index = s.posterImageFrameIndex) ∧
      Recached { s with requestedFrameIndex := index } cached frames ∧
      cached.card ≤ s.frameCacheSizeCurrent + 1 := by
  have sound' : Sound { s with requestedFrameIndex := index } := { sound with requested_lt := inside }
  let missing := ((({ s with requestedFrameIndex := index } : FLAnimatedImage Image).frameIndexesToCache \
    s.cachedFrameIndexes) \ s.requestedFrameIndexes).erase s.posterImageFrameIndex
  have new (i : ℕ) (listed : i ∈ missing) :
      i < s.frameCount ∧ i ∉ s.cachedFrameIndexes ∧ i ∉ s.requestedFrameIndexes := by
    simp only [missing, Finset.mem_erase, Finset.mem_sdiff] at listed
    have lt := lt_frameCount_of_mem_frameIndexesToCache sound' listed.2.1.1
    exact ⟨lt, listed.2.1.2, listed.2.2⟩
  have window := (frameIndexesToCache_spec sound').1
  by_cases room : s.cachedFrameIndexes.card < s.frameCount
  · obtain ⟨cached, frames, purged, recached, card⟩ :=
      purge_recached (sound'.addFrameIndexesToCache new)
    refine ⟨missing, cached, frames, ?_, new, ?_, { recached with }, card⟩
    · have added : (if 0 < missing.card then
          ({ s with requestedFrameIndex := index } : FLAnimatedImage Image).addFrameIndexesToCache missing
          else { s with requestedFrameIndex := index }) =
          ({ s with requestedFrameIndex := index } : FLAnimatedImage Image).addFrameIndexesToCache
            missing := by
        split
        next => rfl
        next none_missing =>
          have empty : missing = ∅ := Finset.card_eq_zero.mp (by omega)
          rw [empty, addFrameIndexesToCache_eq]
          simp [productionOrder]
      unfold imageLazilyCachedAtIndex
      rw [if_neg (by omega)]
      simp only [room, ↓reduceIte]
      rw [show (if 0 < _ then _ else _) = _ from added, purged, addFrameIndexesToCache_eq]
    · by_cases cached : index ∈ s.cachedFrameIndexes
      · exact Or.inl cached
      · by_cases requested : index ∈ s.requestedFrameIndexes
        · exact Or.inr (Or.inl (Finset.mem_union_left _ requested))
        · by_cases poster : index = s.posterImageFrameIndex
          · exact Or.inr (Or.inr poster)
          · refine Or.inr (Or.inl (Finset.mem_union_right _ ?_))
            simp only [missing, Finset.mem_erase, Finset.mem_sdiff]
            exact ⟨poster, ⟨window, cached⟩, requested⟩
  · obtain ⟨cached, frames, purged, recached, card⟩ := purge_recached sound'
    refine ⟨∅, cached, frames, ?_, by simp, Or.inl ?_, { recached with }, card⟩
    · unfold imageLazilyCachedAtIndex
      rw [if_neg (by omega)]
      simp only [room, ↓reduceIte]
      rw [purged]
      simp [productionOrder]
    · have all : s.cachedFrameIndexes = Finset.range s.frameCount := by
        refine Finset.eq_of_subset_of_card_le (fun i cached => ?_) (by rw [Finset.card_range]; omega)
        exact Finset.mem_range.mpr (sound.inside i (Or.inl cached))
      rw [all]
      exact Finset.mem_range.mpr inside

theorem sound_init {imageSource : ℕ → Image} {address loopCount : ℕ} {frames : List (Option GIFProperties)}
    {bytesPerRow : ℕ} {height : ℚ} {optimalFrameCacheSize : ℕ} {s : FLAnimatedImage Image}
    (made : initWithAnimatedGIFData address imageSource loopCount frames bytesPerRow height
      optimalFrameCacheSize = some s) : s.Sound := by
  unfold initWithAnimatedGIFData at made
  dsimp only at made
  split at made
  next => cases made
  next some_frame =>
    have pos : 0 < frames.length := Nat.pos_of_ne_zero some_frame
    have poster (p : ℕ) (found : frames.findIdx? Option.isSome = some p) : p < frames.length := by
      obtain ⟨lt, -⟩ := List.findIdx?_eq_some_iff_getElem.mp found
      exact lt
    cases made
    refine ⟨?_, Nat.min_le_right _ _, pos, ?_, ?_, ?_, ?_, ?_, ?_, ?_, List.nodup_nil, ?_⟩
    · refine Nat.lt_min.mpr ⟨?_, pos⟩
      repeat' split
      all_goals omega
    · show (frames.findIdx? Option.isSome).getD 0 < frames.length
      cases found : frames.findIdx? Option.isSome with
      | none => exact pos
      | some p => exact poster p found
    · intro i
      simp only [Option.mem_toFinset, Option.mem_def]
      split <;> simp_all
    · intro i image shown
      dsimp only at shown
      split at shown
      · exact (Option.some.inj shown).symm
      · cases shown
    · intro p listed
      cases listed
    · intro shown
      simp only [Option.isSome_map] at shown
      obtain ⟨p, found⟩ := Option.isSome_iff_exists.mp shown
      simp [found]
    · intro i listed
      rcases listed with cached | requested
      · exact poster i (Option.mem_toFinset.mp cached)
      · cases requested
    · intro i requested
      cases requested
    · intro i listed
      cases listed

theorem Sound.produce {s : FLAnimatedImage Image} {i : ℕ} {later : List ℕ} (sound : s.Sound)
    (queue : s.serialQueue = i :: later) (image : Option Image)
    (own : ∀ x, image = some x → x = s.imageSource i) :
    Sound { s with serialQueue := later, mainQueue := s.mainQueue ++ (image.map (i, ·)).toList } := by
  have once := sound.once
  have listed := sound.listed
  simp only [inFlight, queue] at once listed
  have under_way : (later ++ (s.mainQueue ++ (image.map (i, ·)).toList).map Prod.fst).Sublist
      (later ++ s.mainQueue.map Prod.fst ++ [i]) := by
    rw [List.map_append, ← List.append_assoc]
    refine List.Sublist.append_left ?_ _
    cases image with
    | none => exact List.nil_sublist _
    | some x => exact List.Sublist.refl _
  have rotated : (later ++ s.mainQueue.map Prod.fst ++ [i]).Perm
      (i :: later ++ s.mainQueue.map Prod.fst) := List.perm_append_singleton _ _
  refine { sound with produced := ?_, once := ?_, listed := ?_ }
  · intro p waits
    rcases List.mem_append.mp waits with old | new
    · exact sound.produced p old
    · cases image with
      | none => cases new
      | some x =>
        cases List.mem_singleton.mp new
        exact own x rfl
  · exact (rotated.nodup_iff.mpr once).sublist under_way
  · intro j waits
    exact listed j (rotated.mem_iff.mp (under_way.subset waits))

theorem Sound.deliver {s : FLAnimatedImage Image} {i : ℕ} {image : Image} {later : List (ℕ × Image)}
    (sound : s.Sound) (queue : s.mainQueue = (i, image) :: later) : Sound { s with
      mainQueue := later
      cachedFramesForIndexes := Function.update s.cachedFramesForIndexes i (some image)
      cachedFrameIndexes := insert i s.cachedFrameIndexes
      requestedFrameIndexes := s.requestedFrameIndexes.erase i } := by
  have once := sound.once
  have listed := sound.listed
  simp only [inFlight, queue, List.map_cons] at once listed
  have requested : i ∈ s.requestedFrameIndexes := listed i (by simp)
  refine { sound with keys := ?_, images := ?_, produced := ?_, poster := ?_, inside := ?_, apart := ?_,
                      once := ?_, listed := ?_ }
  · intro j
    by_cases same : j = i
    · subst same
      simp
    · simpa [Function.update_of_ne same, same] using sound.keys j
  · intro j x shown
    by_cases same : j = i
    · subst same
      cases (Function.update_self j (some image) s.cachedFramesForIndexes).symm.trans shown
      exact sound.produced (j, image) (by simp [queue])
    · exact sound.images j x ((Function.update_of_ne same ..).symm.trans shown)
  · exact fun p waits => sound.produced p (by rw [queue]; exact List.mem_cons_of_mem _ waits)
  · exact fun shown => Finset.mem_insert_of_mem (sound.poster shown)
  · intro j listed
    rcases listed with cached | waits
    · rcases Finset.mem_insert.mp cached with rfl | old
      · exact sound.inside j (Or.inr requested)
      · exact sound.inside j (Or.inl old)
    · exact sound.inside j (Or.inr (Finset.mem_of_mem_erase waits))
  · intro j waits cached
    obtain ⟨other, old⟩ := Finset.mem_erase.mp waits
    rcases Finset.mem_insert.mp cached with same | before
    · exact other same
    · exact sound.apart j old before
  · exact once.sublist (List.Sublist.append_left (List.sublist_cons_self _ _) _)
  · intro j waits
    have other : j ≠ i := by
      intro same
      rw [same] at waits
      have moved : (i :: (s.serialQueue ++ later.map Prod.fst)).Nodup :=
        List.perm_middle.nodup_iff.mp once
      exact (List.nodup_cons.mp moved).1 waits
    refine Finset.mem_erase.mpr ⟨other, listed j ?_⟩
    exact (List.Sublist.append_left (List.sublist_cons_self _ _) _).subset waits

/-- What each event can do to the queues and the cache. -/
inductive Moves (s : FLAnimatedImage Image) : FrameEvent → FLAnimatedImage Image → Prop
  | outside {index : ℕ} (outside : s.frameCount ≤ index) : Moves s (.imageLazilyCachedAtIndex index) s
  | asked {index : ℕ} {added cached : Finset ℕ} {frames : ℕ → Option Image}
      (inside : index < s.frameCount)
      (new : ∀ i ∈ added, i < s.frameCount ∧ i ∉ s.cachedFrameIndexes ∧ i ∉ s.requestedFrameIndexes)
      (there : index ∈ s.cachedFrameIndexes ∨ index ∈ s.requestedFrameIndexes ∪ added ∨
        index = s.posterImageFrameIndex)
      (recached : Recached { s with requestedFrameIndex := index } cached frames) :
    Moves s (.imageLazilyCachedAtIndex index) { s with
      requestedFrameIndex := index
      requestedFrameIndexes := s.requestedFrameIndexes ∪ added
      serialQueue := s.serialQueue ++ productionOrder { s with requestedFrameIndex := index } added
      cachedFrameIndexes := cached
      cachedFramesForIndexes := frames }
  | produced {i : ℕ} {later : List ℕ} {succeeds : Bool} (queue : s.serialQueue = i :: later) :
    Moves s (.produce succeeds) { s with
      serialQueue := later
      mainQueue := s.mainQueue ++
        ((if succeeds then some (s.imageSource i) else none).map (i, ·)).toList }
  | delivered {i : ℕ} {image : Image} {later : List (ℕ × Image)} (queue : s.mainQueue = (i, image) :: later) :
    Moves s .deliver { s with
      mainQueue := later
      cachedFramesForIndexes := Function.update s.cachedFramesForIndexes i (some image)
      cachedFrameIndexes := insert i s.cachedFrameIndexes
      requestedFrameIndexes := s.requestedFrameIndexes.erase i }
  | recapped {event : FrameEvent} {size sizeInternal count grow reset : ℕ} {cached : Finset ℕ}
      {frames : ℕ → Option Image} (no_request : ∀ index, event ≠ .imageLazilyCachedAtIndex index)
      (no_production : ∀ succeeds, event ≠ .produce succeeds) (recached : s.Recached cached frames) :
    Moves s event { s with
      frameCacheSizeMax := size
      frameCacheSizeMaxInternal := sizeInternal
      memoryWarningCount := count
      growRequests := grow
      resetRequests := reset
      cachedFrameIndexes := cached
      cachedFramesForIndexes := frames }

theorem moves_of_step {s t : FLAnimatedImage Image} {event : FrameEvent} (sound : s.Sound)
    (taken : s.step event = some t) : s.Moves event t := by
  cases event with
  | imageLazilyCachedAtIndex index =>
    cases taken
    by_cases inside : index < s.frameCount
    · obtain ⟨added, cached, frames, eq, new, there, recached, _⟩ :=
        imageLazilyCachedAtIndex_spec sound inside
      rw [eq]
      exact .asked inside new there recached
    · have same : (s.imageLazilyCachedAtIndex index).2 = s := by
        unfold imageLazilyCachedAtIndex
        rw [if_pos (by omega)]
      rw [same]
      exact .outside (by omega)
  | produce succeeds =>
    simp only [step] at taken
    split at taken
    next => cases taken
    next i later queue =>
      cases taken
      exact .produced queue
  | deliver =>
    simp only [step] at taken
    split at taken
    next => cases taken
    next i image later queue =>
      cases taken
      exact .delivered queue
  | didReceiveMemoryWarning =>
    cases taken
    have sound' : Sound { s with memoryWarningCount := s.memoryWarningCount + 1 } := { sound with }
    obtain ⟨cached, frames, eq, recached⟩ := setFrameCacheSizeMaxInternal_recached sound' 1
    unfold didReceiveMemoryWarning
    dsimp only
    rw [eq]
    split
    · exact .recapped (by simp) (by simp) { recached with }
    · exact .recapped (by simp) (by simp) { recached with }
  | growFrameCacheSizeAfterMemoryWarning =>
    obtain ⟨_, rfl⟩ := guarded taken
    have sound' : Sound { s with growRequests := s.growRequests - 1 } := { sound with }
    obtain ⟨cached, frames, eq, recached⟩ := setFrameCacheSizeMaxInternal_recached sound' 2
    unfold growFrameCacheSizeAfterMemoryWarning
    rw [eq]
    exact .recapped (by simp) (by simp) { recached with }
  | resetFrameCacheSizeMaxInternal =>
    obtain ⟨_, rfl⟩ := guarded taken
    have sound' : Sound { s with resetRequests := s.resetRequests - 1 } := { sound with }
    obtain ⟨cached, frames, eq, recached⟩ := setFrameCacheSizeMaxInternal_recached sound' 0
    unfold resetFrameCacheSizeMaxInternal
    rw [eq]
    exact .recapped (by simp) (by simp) { recached with }
  | setFrameCacheSizeMax size =>
    cases taken
    obtain ⟨cached, frames, eq, recached⟩ := setFrameCacheSizeMax_recached sound size
    rw [eq]
    exact .recapped (by simp) (by simp) { recached with }

theorem Sound.step {s t : FLAnimatedImage Image} {event : FrameEvent} (sound : s.Sound)
    (taken : s.step event = some t) : t.Sound := by
  cases moves_of_step sound taken with
  | outside => exact sound
  | @asked index added cached frames inside new there recached =>
    have sound' : Sound { s with requestedFrameIndex := index } := { sound with requested_lt := inside }
    have sound'' := sound'.addFrameIndexesToCache new
    rw [addFrameIndexesToCache_eq] at sound''
    exact sound''.recached { recached with }
  | @produced i later succeeds queue =>
    refine sound.produce queue _ fun x made => ?_
    cases succeeds with
    | false => cases made
    | true => exact (Option.some.inj made).symm
  | delivered queue => exact sound.deliver queue
  | recapped _ _ recached => exact { sound.recached recached with }

/-- What no event changes. -/
structure SameImage (s t : FLAnimatedImage Image) : Prop where
  address : t.address = s.address
  imageSource : t.imageSource = s.imageSource
  frameCount : t.frameCount = s.frameCount
  delayTimesForIndexes : t.delayTimesForIndexes = s.delayTimesForIndexes
  posterImage : t.posterImage = s.posterImage
  posterImageFrameIndex : t.posterImageFrameIndex = s.posterImageFrameIndex
  loopCount : t.loopCount = s.loopCount

theorem Moves.sameImage {s t : FLAnimatedImage Image} {event : FrameEvent} (moves : s.Moves event t) :
    SameImage s t := by
  cases moves <;> exact ⟨rfl, rfl, rfl, rfl, rfl, rfl, rfl⟩

theorem SameImage.trans {s t u : FLAnimatedImage Image} (first : SameImage s t) (second : SameImage t u) :
    SameImage s u :=
  ⟨second.address.trans first.address, second.imageSource.trans first.imageSource,
    second.frameCount.trans first.frameCount,
    second.delayTimesForIndexes.trans first.delayTimesForIndexes,
    second.posterImage.trans first.posterImage,
    second.posterImageFrameIndex.trans first.posterImageFrameIndex,
    second.loopCount.trans first.loopCount⟩

theorem sound_run {start s : FLAnimatedImage Image} {events : List FrameEvent} (sound : start.Sound)
    (ran : run step start events = some s) : s.Sound ∧ SameImage start s := by
  have keeps : ∀ u event v, step u event = some v → u.Sound ∧ SameImage start u →
      v.Sound ∧ SameImage start v :=
    fun u event v taken inv => ⟨inv.1.step taken, inv.2.trans (moves_of_step inv.1 taken).sameImage⟩
  exact run_invariant keeps ran ⟨sound, rfl, rfl, rfl, rfl, rfl, rfl, rfl⟩

/-- The fields a new animated image gets. -/
theorem init_fields {imageSource : ℕ → Image} {address loopCount : ℕ} {frames : List (Option GIFProperties)}
    {bytesPerRow : ℕ} {height : ℚ} {optimalFrameCacheSize : ℕ} {s : FLAnimatedImage Image}
    (made : initWithAnimatedGIFData address imageSource loopCount frames bytesPerRow height
      optimalFrameCacheSize = some s) :
    s.imageSource = imageSource ∧ s.frameCount = frames.length ∧ s.loopCount = loopCount ∧
      s.delayTimesForIndexes = delayTimes frames ∧
      s.posterImage = (frames.findIdx? Option.isSome).map imageSource ∧
      s.posterImageFrameIndex = (frames.findIdx? Option.isSome).getD 0 ∧ s.requestedFrameIndexes = ∅ ∧
      s.frameCacheSizeMaxInternal = 0 ∧ s.memoryWarningCount = 0 ∧ s.growRequests = 0 ∧
      s.resetRequests = 0 := by
  unfold initWithAnimatedGIFData at made
  dsimp only at made
  split at made
  next => cases made
  next =>
    cases made
    exact ⟨rfl, rfl, rfl, rfl, rfl, rfl, rfl, rfl, rfl, rfl, rfl⟩

theorem Sound.frames_eq {s : FLAnimatedImage Image} (sound : s.Sound) (i : ℕ) :
    s.cachedFramesForIndexes i = if i ∈ s.cachedFrameIndexes then some (s.imageSource i) else none := by
  have keys := sound.keys i
  cases cached : s.cachedFramesForIndexes i with
  | none => simp_all
  | some image =>
    have listed : i ∈ s.cachedFrameIndexes := keys.mp (by simp [cached])
    rw [if_pos listed, sound.images i image cached]

/-- Along every run the cache holds the true images of the indexes it says it holds, and after
every request for one of its frames it is larger by one frame than its size at most. -/
theorem cache_true_and_small {imageSource : ℕ → Image} {address loopCount bytesPerRow optimal index : ℕ}
    {frames : List (Option GIFProperties)} {height : ℚ} {start s : FLAnimatedImage Image}
    {events : List FrameEvent}
    (made : initWithAnimatedGIFData address imageSource loopCount frames bytesPerRow height optimal = some start)
    (ran : run step start events = some s) :
    (∀ i, s.cachedFramesForIndexes i = if i ∈ s.cachedFrameIndexes then some (imageSource i) else none) ∧
      (index < frames.length → (s.imageLazilyCachedAtIndex index).2.cachedFrameIndexes.card ≤
        (s.imageLazilyCachedAtIndex index).2.frameCacheSizeCurrent + 1) := by
  obtain ⟨source, count, _⟩ := init_fields made
  obtain ⟨sound, same⟩ := sound_run (sound_init made) ran
  refine ⟨fun i => ?_, fun inside => ?_⟩
  · rw [sound.frames_eq i, same.imageSource, source]
  · rw [← count, ← same.frameCount] at inside
    obtain ⟨added, cached, frames, eq, _, _, _, card⟩ := imageLazilyCachedAtIndex_spec sound inside
    rw [eq]
    exact card

def everyTenth : GIFProperties := ⟨none, some (1 / 10)⟩

/-- Three frames, of which two and the poster image may be cached. -/
def threeFrames : FLAnimatedImage ℕ :=
  (initWithAnimatedGIFData 0 id 0 [some everyTenth, some everyTenth, some everyTenth] 400 100 2).get rfl

/-- The second frame is asked for, and the production of the third one fails. -/
def thirdFrameFails : List FrameEvent := [.produce true, .produce false, .deliver]

theorem cache_true_and_small_threeFrames : ∃ s,
    run step threeFrames (.imageLazilyCachedAtIndex 1 :: thirdFrameFails) = some s ∧
      (∀ i, s.cachedFramesForIndexes i = if i ∈ s.cachedFrameIndexes then some i else none) ∧
      (s.imageLazilyCachedAtIndex 2).2.cachedFrameIndexes.card ≤
        (s.imageLazilyCachedAtIndex 2).2.frameCacheSizeCurrent + 1 := by
  have ran : (run step threeFrames (.imageLazilyCachedAtIndex 1 :: thirdFrameFails)).isSome = true := by
    decide +kernel
  obtain ⟨s, done⟩ := Option.isSome_iff_exists.mp ran
  obtain ⟨true_frames, small⟩ := cache_true_and_small (Option.some_get _).symm done
  exact ⟨s, done, true_frames, small (by decide)⟩

/-- The production of frame `i` fails. -/
def Fails (i : ℕ) (s : FLAnimatedImage Image) (event : FrameEvent) : Prop :=
  event = .produce false ∧ s.serialQueue.head? = some i

/-- Frame `i` is requested only while it is under way. -/
def Coming (i : ℕ) (s : FLAnimatedImage Image) : Prop := i ∈ s.requestedFrameIndexes → i ∈ s.inFlight

/-- Frame `i` is requested for good, though nothing about it is under way. -/
def Lost (i : ℕ) (s : FLAnimatedImage Image) : Prop := i ∈ s.requestedFrameIndexes ∧ i ∉ s.inFlight

/-- Frame `i` was asked for last. -/
def Asked (i : ℕ) (s : FLAnimatedImage Image) : Prop :=
  s.requestedFrameIndex = i ∧ (i ∈ s.cachedFrameIndexes ∨ i ∈ s.requestedFrameIndexes)

theorem Coming.step {s t : FLAnimatedImage Image} {event : FrameEvent} {i : ℕ} (coming : s.Coming i)
    (sound : s.Sound) (whole : ¬ Fails i s event) (taken : s.step event = some t) : t.Coming i := by
  intro requested
  cases moves_of_step sound taken with
  | outside => exact coming requested
  | @asked index added cached frames inside new there recached =>
    simp only [inFlight, List.mem_append]
    rcases Finset.mem_union.mp requested with old | added
    · rcases List.mem_append.mp (coming old) with queued | waits
      · exact Or.inl (Or.inl queued)
      · exact Or.inr waits
    · have lt : i < s.frameCount := (new i added).1
      exact Or.inl (Or.inr ((mem_productionOrder inside).mpr ⟨added, lt⟩))
  | @produced j later succeeds queue =>
    have under_way := coming requested
    simp only [inFlight, queue, List.mem_append, List.mem_cons, List.map_append] at under_way ⊢
    rcases under_way with (same | queued) | waits
    · subst same
      cases succeeds with
      | false => exact absurd ⟨rfl, by simp [queue]⟩ whole
      | true => exact Or.inr (Or.inr (by simp))
    · exact Or.inl queued
    · exact Or.inr (Or.inl waits)
  | @delivered j image later queue =>
    obtain ⟨other, old⟩ := Finset.mem_erase.mp requested
    have under_way := coming old
    simp only [inFlight, queue, List.mem_append, List.map_cons, List.mem_cons] at under_way ⊢
    rcases under_way with queued | same | waits
    · exact Or.inl queued
    · exact absurd same other
    · exact Or.inr waits
  | recapped => exact coming requested

theorem Lost.step {s t : FLAnimatedImage Image} {event : FrameEvent} {i : ℕ} (lost : s.Lost i)
    (sound : s.Sound) (taken : s.step event = some t) : t.Lost i := by
  obtain ⟨requested, nothing⟩ := lost
  simp only [inFlight, List.mem_append, not_or] at nothing
  obtain ⟨not_queued, not_waiting⟩ := nothing
  cases moves_of_step sound taken with
  | outside => exact ⟨requested, by simp [inFlight, not_queued, not_waiting]⟩
  | @asked index added cached frames inside new there recached =>
    have old : i ∉ added := fun listed => (new i listed).2.2 requested
    refine ⟨Finset.mem_union_left _ requested, ?_⟩
    simp only [inFlight, List.mem_append, not_or]
    exact ⟨⟨not_queued, fun listed => old ((mem_productionOrder inside).mp listed).1⟩, not_waiting⟩
  | @produced j later succeeds queue =>
    rw [queue] at not_queued
    obtain ⟨other, not_later⟩ := not_or.mp fun listed => not_queued (List.mem_cons.mpr listed)
    refine ⟨requested, ?_⟩
    simp only [inFlight, List.mem_append, List.map_append, not_or]
    refine ⟨not_later, not_waiting, ?_⟩
    cases succeeds <;> simp [other]
  | @delivered j image later queue =>
    rw [queue] at not_waiting
    obtain ⟨other, not_later⟩ := not_or.mp fun listed => not_waiting (List.mem_cons.mpr listed)
    exact ⟨Finset.mem_erase.mpr ⟨other, requested⟩, by simp [inFlight, not_queued, not_later]⟩
  | recapped => exact ⟨requested, by simp [inFlight, not_queued, not_waiting]⟩

theorem lost_of_fails {s t : FLAnimatedImage Image} {event : FrameEvent} {i : ℕ} (sound : s.Sound)
    (fails : Fails i s event) (taken : s.step event = some t) : t.Lost i := by
  obtain ⟨rfl, head⟩ := fails
  cases moves_of_step sound taken with
  | @produced j later _ queue =>
    rw [queue] at head
    cases Option.some.inj head
    have once := sound.once
    simp only [inFlight, queue] at once
    refine ⟨sound.listed i (by simp [inFlight, queue]), ?_⟩
    simpa [inFlight] using (List.nodup_cons.mp once).1
  | recapped _ no_production => exact absurd rfl (no_production false)

theorem Asked.step {s t : FLAnimatedImage Image} {event : FrameEvent} {i : ℕ} (asked : s.Asked i)
    (sound : s.Sound) (other : ∀ index, event ≠ .imageLazilyCachedAtIndex index)
    (taken : s.step event = some t) : t.Asked i := by
  obtain ⟨last, there⟩ := asked
  cases moves_of_step sound taken with
  | outside | asked => exact absurd rfl (other _)
  | produced => exact ⟨last, there⟩
  | @delivered j image later queue =>
    refine ⟨last, ?_⟩
    by_cases same : i = j
    · exact Or.inl (Finset.mem_insert.mpr (Or.inl same))
    · exact there.imp Finset.mem_insert_of_mem fun old => Finset.mem_erase.mpr ⟨same, old⟩
  | recapped _ _ recached =>
    refine ⟨last, there.imp_left fun cached => ?_⟩
    rw [← last] at cached ⊢
    exact recached.requested cached

theorem asked_of_request {s t : FLAnimatedImage Image} {i : ℕ} (sound : s.Sound) (inside : i < s.frameCount)
    (poster : s.posterImage.isSome = true)
    (taken : s.step (.imageLazilyCachedAtIndex i) = some t) : t.Asked i := by
  cases moves_of_step sound taken with
  | outside outside => omega
  | recapped no_request => exact absurd rfl (no_request i)
  | @asked _ added cached frames _ new there recached =>
    refine ⟨rfl, ?_⟩
    rcases there with before | requested | same
    · exact Or.inl (recached.requested before)
    · exact Or.inr requested
    · have before := sound.poster poster
      rw [← same] at before
      exact Or.inl (recached.requested before)

theorem lost_run {s t : FLAnimatedImage Image} {events : List FrameEvent} {i : ℕ} (lost : s.Lost i)
    (sound : s.Sound) (ran : run step s events = some t) : t.Lost i := by
  have keeps : ∀ (u : FLAnimatedImage Image) event v, u.step event = some v → u.Sound ∧ u.Lost i →
      v.Sound ∧ v.Lost i :=
    fun u event v taken inv => ⟨inv.1.step taken, inv.2.step inv.1 taken⟩
  exact (run_invariant keeps ran ⟨sound, lost⟩).2

theorem coming_run {s t : FLAnimatedImage Image} {events : List FrameEvent} {i : ℕ} (coming : s.Coming i)
    (sound : s.Sound) (whole : StepsMeet step (fun u event => ¬ Fails i u event) s events)
    (ran : run step s events = some t) : t.Coming i := by
  have keeps : ∀ (u : FLAnimatedImage Image) event v, u.step event = some v → ¬ Fails i u event →
      u.Sound ∧ u.Coming i → v.Sound ∧ v.Coming i :=
    fun u event v taken whole inv => ⟨inv.1.step taken, inv.2.step inv.1 whole taken⟩
  exact (always_end (always_of_stepsMeet keeps ⟨sound, coming⟩ whole) ran).2

theorem asked_run {s t : FLAnimatedImage Image} {events : List FrameEvent} {i : ℕ} (asked : s.Asked i)
    (sound : s.Sound) (last : ∀ j, FrameEvent.imageLazilyCachedAtIndex j ∉ events)
    (ran : run step s events = some t) : t.Asked i := by
  have keeps : ∀ (u : FLAnimatedImage Image), ∀ event ∈ events, ∀ v, u.step event = some v →
      u.Sound ∧ u.Asked i → v.Sound ∧ v.Asked i := by
    intro u event listed v taken inv
    exact ⟨inv.1.step taken, inv.2.step inv.1 (fun j same => last j (same ▸ listed)) taken⟩
  exact (run_invariant_of_mem keeps ran ⟨sound, asked⟩).2

/-- Once the queues are empty, a frame that was asked for last is there exactly if no production of
it has failed; after a failure it never comes. -/
theorem frame_comes_iff {imageSource : ℕ → Image} {address loopCount bytesPerRow optimal i : ℕ}
    {frames : List (Option GIFProperties)} {height : ℚ} {properties : GIFProperties}
    {start s : FLAnimatedImage Image} {past rest : List FrameEvent}
    (made : initWithAnimatedGIFData address imageSource loopCount frames bytesPerRow height optimal = some start)
    (valid : frames[i]? = some (some properties))
    (ran : run step start (past ++ .imageLazilyCachedAtIndex i :: rest) = some s)
    (last : ∀ j, FrameEvent.imageLazilyCachedAtIndex j ∉ rest)
    (idle : s.serialQueue = [] ∧ s.mainQueue = []) :
    (s.imageLazilyCachedAtIndex i).1 = some (imageSource i) ↔
      StepsMeet step (fun u event => ¬ Fails i u event) start
        (past ++ .imageLazilyCachedAtIndex i :: rest) := by
  obtain ⟨source, count, _, _, poster, _, none_requested, _⟩ := init_fields made
  have fresh := sound_init made
  obtain ⟨sound, same⟩ := sound_run fresh ran
  obtain ⟨lt, _⟩ := List.getElem?_eq_some_iff.mp valid
  have inside : i < s.frameCount := by rw [same.frameCount, count]; exact lt
  have answer : (s.imageLazilyCachedAtIndex i).1 = some (imageSource i) ↔ i ∈ s.cachedFrameIndexes := by
    obtain ⟨added, cached, frames, eq, _⟩ := imageLazilyCachedAtIndex_spec sound inside
    rw [eq, sound.frames_eq i, same.imageSource, source]
    split <;> simp [*]
  rw [answer]
  apply Iff.intro
  · intro cached
    by_contra fails
    obtain ⟨before, event, after, u, v, split, to_u, taken, bad⟩ := exists_bad_step fails
    have sound_u := (sound_run fresh to_u).1
    have lost := lost_of_fails sound_u (not_not.mp bad) taken
    rw [split, run_append, to_u, Option.bind_some, run_cons, taken, Option.bind_some] at ran
    exact sound.apart i (lost_run lost (sound_u.step taken) ran).1 cached
  · intro whole
    have first : start.Coming i := by
      intro requested
      rw [none_requested] at requested
      cases requested
    have coming := coming_run first fresh whole ran
    obtain ⟨u, to_u, later⟩ := run_append_some ran
    obtain ⟨v, taken, ran'⟩ := Option.bind_eq_some_iff.mp later
    obtain ⟨sound_u, same_u⟩ := sound_run fresh to_u
    have asked : v.Asked i := by
      refine asked_of_request sound_u (by rw [same_u.frameCount, count]; exact lt) ?_ taken
      rw [same_u.posterImage, poster, Option.isSome_map]
      cases found : frames.findIdx? Option.isSome with
      | some p => rfl
      | none => cases List.findIdx?_eq_none_iff.mp found _ (List.mem_of_getElem? valid)
    rcases (asked_run asked (sound_u.step taken) last ran').2 with cached | requested
    · exact cached
    · have under_way := coming requested
      simp [inFlight, idle.1, idle.2] at under_way

instance (i : ℕ) (s : FLAnimatedImage Image) (event : FrameEvent) : Decidable (Fails i s event) :=
  inferInstanceAs (Decidable (_ ∧ _))

theorem frame_comes_iff_threeFrames : ∃ s,
    run step threeFrames (.imageLazilyCachedAtIndex 1 :: thirdFrameFails) = some s ∧
      (s.imageLazilyCachedAtIndex 1).1 = some 1 := by
  have ran : (run step threeFrames (.imageLazilyCachedAtIndex 1 :: thirdFrameFails)).any
      (fun s => decide (s.serialQueue = [] ∧ s.mainQueue = [])) = true := by decide +kernel
  obtain ⟨s, done, idle⟩ := Option.any_eq_true _ _ |>.mp ran
  have whole : StepsMeet step (fun u event => ¬ Fails 1 u event) threeFrames
      (.imageLazilyCachedAtIndex 1 :: thirdFrameFails) := by decide +kernel
  have last : ∀ j, FrameEvent.imageLazilyCachedAtIndex j ∉ thirdFrameFails := by simp [thirdFrameFails]
  have done' : run step threeFrames ([] ++ .imageLazilyCachedAtIndex 1 :: thirdFrameFails) = some s := done
  exact ⟨s, done, (frame_comes_iff (Option.some_get _).symm rfl done' last
    (of_decide_eq_true idle)).mpr whole⟩

/-- The cap after memory warnings, the delayed calls that change it, and the warnings so far. -/
structure Memory where
  cap : ℕ
  grow : ℕ
  reset : ℕ
  warnings : ℕ

def memory (s : FLAnimatedImage Image) : Memory :=
  ⟨s.frameCacheSizeMaxInternal, s.growRequests, s.resetRequests, s.memoryWarningCount⟩

def Memory.next (m : Memory) : FrameEvent → Memory
  | .didReceiveMemoryWarning =>
    ⟨1, m.grow + if m.warnings ≤ 2 then 1 else 0, m.reset, m.warnings + 1⟩
  | .growFrameCacheSizeAfterMemoryWarning => ⟨2, m.grow - 1, m.reset + 1, m.warnings⟩
  | .resetFrameCacheSizeMaxInternal => ⟨0, m.grow, m.reset - 1, m.warnings⟩
  | _ => m

theorem memory_step {s t : FLAnimatedImage Image} {event : FrameEvent} (sound : s.Sound)
    (taken : s.step event = some t) : t.memory = s.memory.next event := by
  cases event with
  | imageLazilyCachedAtIndex index =>
    cases moves_of_step sound taken with
    | outside | asked => rfl
    | recapped no_request => exact absurd rfl (no_request index)
  | produce succeeds =>
    cases moves_of_step sound taken with
    | produced => rfl
    | recapped _ no_production => exact absurd rfl (no_production succeeds)
  | deliver =>
    simp only [step] at taken
    split at taken
    next => cases taken
    next =>
      cases taken
      rfl
  | didReceiveMemoryWarning =>
    cases taken
    have sound' : Sound { s with memoryWarningCount := s.memoryWarningCount + 1 } := { sound with }
    obtain ⟨cached, frames, eq, _⟩ := setFrameCacheSizeMaxInternal_recached sound' 1
    unfold didReceiveMemoryWarning
    dsimp only
    rw [eq]
    simp only [Nat.add_sub_cancel]
    split
    next few => simp [memory, Memory.next, few]
    next many => simp [memory, Memory.next, many]
  | growFrameCacheSizeAfterMemoryWarning =>
    obtain ⟨_, rfl⟩ := guarded taken
    have sound' : Sound { s with growRequests := s.growRequests - 1 } := { sound with }
    obtain ⟨cached, frames, eq, _⟩ := setFrameCacheSizeMaxInternal_recached sound' 2
    unfold growFrameCacheSizeAfterMemoryWarning
    rw [eq]
    rfl
  | resetFrameCacheSizeMaxInternal =>
    obtain ⟨_, rfl⟩ := guarded taken
    have sound' : Sound { s with resetRequests := s.resetRequests - 1 } := { sound with }
    obtain ⟨cached, frames, eq, _⟩ := setFrameCacheSizeMaxInternal_recached sound' 0
    unfold resetFrameCacheSizeMaxInternal
    rw [eq]
    rfl
  | setFrameCacheSizeMax size =>
    cases taken
    obtain ⟨cached, frames, eq, _⟩ := setFrameCacheSizeMax_recached sound size
    rw [eq]
    rfl

/-- A memory warning came when three resettings had been done. -/
def LateWarning (events : List FrameEvent) : Prop :=
  ∃ n < events.length, events[n]? = some .didReceiveMemoryWarning ∧
    3 ≤ (events.take n).count .resetFrameCacheSizeMaxInternal

instance (events : List FrameEvent) : Decidable (LateWarning events) :=
  inferInstanceAs (Decidable (∃ n < events.length, _ ∧ _))

theorem lateWarning_concat {events : List FrameEvent} {event : FrameEvent} :
    LateWarning (events ++ [event]) ↔ LateWarning events ∨
      event = .didReceiveMemoryWarning ∧ 3 ≤ events.count .resetFrameCacheSizeMaxInternal := by
  apply Iff.intro
  · intro ⟨n, inside, warning, resets⟩
    rw [List.length_append, List.length_singleton, Nat.lt_succ_iff_lt_or_eq] at inside
    rcases inside with before | rfl
    · rw [List.getElem?_append_left before] at warning
      rw [List.take_append_of_le_length before.le] at resets
      exact Or.inl ⟨n, before, warning, resets⟩
    · rw [List.getElem?_concat_length] at warning
      rw [List.take_left] at resets
      exact Or.inr ⟨Option.some.inj warning, resets⟩
  · rintro (⟨n, before, warning, resets⟩ | ⟨rfl, resets⟩)
    · refine ⟨n, by simp; omega, ?_, ?_⟩
      · rw [List.getElem?_append_left before]
        exact warning
      · rw [List.take_append_of_le_length before.le]
        exact resets
    · refine ⟨events.length, by simp, List.getElem?_concat_length, ?_⟩
      rw [List.take_left]
      exact resets

theorem LateWarning.resets {events : List FrameEvent} (late : LateWarning events) :
    3 ≤ events.count .resetFrameCacheSizeMaxInternal := by
  obtain ⟨n, _, _, resets⟩ := late
  exact resets.trans ((List.take_sublist n events).count_le _)

/-- Each of the first three warnings asks for one growing, and that for one resetting, which takes
the cap away unless a warning comes after it. -/
structure Memory.Capped (past : List FrameEvent) (m : Memory) : Prop where
  calls : m.grow + m.reset + past.count .resetFrameCacheSizeMaxInternal = min m.warnings 3
  late : LateWarning past → m.cap = 1 ∧ 3 < m.warnings
  quiet : m.grow = 0 → m.reset = 0 → ¬ LateWarning past → m.cap = 0

theorem Memory.Capped.of_other {past : List FrameEvent} {m : Memory} {event : FrameEvent}
    (capped : m.Capped past) (no_warning : event ≠ .didReceiveMemoryWarning)
    (no_reset : event ≠ .resetFrameCacheSizeMaxInternal) : m.Capped (past ++ [event]) := by
  have same : LateWarning (past ++ [event]) ↔ LateWarning past := by
    rw [lateWarning_concat]
    exact or_iff_left fun late => no_warning late.1
  refine ⟨?_, fun late => capped.late (same.mp late), fun grow reset early => ?_⟩
  · rw [List.count_append, List.count_singleton, if_neg (by simpa using no_reset)]
    exact capped.calls
  · exact capped.quiet grow reset fun late => early (same.mpr late)

theorem capped_step {s t : FLAnimatedImage Image} {past : List FrameEvent} {event : FrameEvent}
    (sound : s.Sound) (capped : s.memory.Capped past) (taken : s.step event = some t) :
    t.memory.Capped (past ++ [event]) := by
  rw [memory_step sound taken]
  have calls := capped.calls
  cases event with
  | didReceiveMemoryWarning =>
    have resets : (past ++ [FrameEvent.didReceiveMemoryWarning]).count .resetFrameCacheSizeMaxInternal =
        past.count .resetFrameCacheSizeMaxInternal := by simp
    refine ⟨?_, fun late => ⟨rfl, ?_⟩, fun grow reset early => ?_⟩
    · rw [resets]
      dsimp only [Memory.next]
      split <;> omega
    · have three := late.resets
      rw [resets] at three
      show 3 < s.memory.warnings + 1
      omega
    · have few : past.count .resetFrameCacheSizeMaxInternal < 3 := by
        by_contra many
        exact early (lateWarning_concat.mpr (Or.inr ⟨rfl, not_lt.mp many⟩))
      dsimp only [Memory.next] at grow reset
      split at grow <;> omega
  | growFrameCacheSizeAfterMemoryWarning =>
    have due : 0 < s.memory.grow := (guarded taken).1
    have next : (s.memory.next .growFrameCacheSizeAfterMemoryWarning).Capped past := by
      refine ⟨?_, fun late => ?_, fun _ reset => absurd reset (Nat.succ_ne_zero _)⟩
      · dsimp only [Memory.next]
        omega
      · have three := late.resets
        omega
    exact next.of_other (by simp) (by simp)
  | resetFrameCacheSizeMaxInternal =>
    have due : 0 < s.memory.reset := (guarded taken).1
    refine ⟨?_, fun late => ?_, fun _ _ _ => rfl⟩
    · rw [List.count_append, List.count_singleton_self]
      dsimp only [Memory.next]
      omega
    · rcases lateWarning_concat.mp late with before | ⟨warning, _⟩
      · have three := before.resets
        omega
      · cases warning
  | _ => exact capped.of_other (by simp) (by simp)

theorem warnings_step {s t : FLAnimatedImage Image} {event : FrameEvent} (sound : s.Sound)
    (taken : s.step event = some t) : t.memory.warnings =
      s.memory.warnings + (decide (event = .didReceiveMemoryWarning)).toNat := by
  rw [memory_step sound taken]
  cases event <;> rfl

theorem memory_run {start s : FLAnimatedImage Image} {events : List FrameEvent} (sound : start.Sound)
    (capped : start.memory.Capped []) (ran : run step start events = some s) :
    s.memory.Capped events := by
  have keeps (past : List FrameEvent) (u : FLAnimatedImage Image) (event : FrameEvent)
      (v : FLAnimatedImage Image) (_ : event ∈ events) (taken : u.step event = some v)
      (inv : u.Sound ∧ u.memory.Capped past) :
      v.Sound ∧ v.memory.Capped (past ++ (some event).toList) :=
    ⟨inv.1.step taken, capped_step inv.1 inv.2 taken⟩
  have both := (run_collects keeps ran ⟨sound, capped⟩).2
  rw [List.nil_append, List.filterMap_some] at both
  exact both

theorem warnings_run {start s : FLAnimatedImage Image} {events : List FrameEvent} (sound : start.Sound)
    (ran : run step start events = some s) :
    s.memory.warnings = start.memory.warnings + events.count .didReceiveMemoryWarning := by
  induction events generalizing start with
  | nil =>
    cases Option.some.inj ran
    rfl
  | cons event events ih =>
    obtain ⟨u, taken, rest⟩ := Option.bind_eq_some_iff.mp ran
    rw [ih (sound.step taken) rest, warnings_step sound taken, List.count_cons]
    by_cases warning : event = .didReceiveMemoryWarning
    · simp [warning]
      omega
    · simp [warning]

/-- Once no delayed call is left, the cap on the cache is gone unless a warning came after the third
resetting. With three warnings at most it is gone. -/
theorem cap_goes_away_iff {imageSource : ℕ → Image} {address loopCount bytesPerRow optimal : ℕ}
    {frames : List (Option GIFProperties)} {height : ℚ} {start s : FLAnimatedImage Image}
    {events : List FrameEvent}
    (made : initWithAnimatedGIFData address imageSource loopCount frames bytesPerRow height optimal = some start)
    (ran : run step start events = some s) (quiet : s.growRequests = 0 ∧ s.resetRequests = 0) :
    (s.frameCacheSizeMaxInternal = 0 ↔ ¬ LateWarning events) ∧
      (events.count .didReceiveMemoryWarning ≤ 3 → s.frameCacheSizeMaxInternal = 0) := by
  obtain ⟨_, _, _, _, _, _, _, cap, warnings, grow, reset⟩ := init_fields made
  have none_late : ¬ LateWarning [] := fun ⟨_, inside, _⟩ => absurd inside (Nat.not_lt_zero _)
  have fresh : start.memory.Capped [] := by
    refine ⟨?_, fun late => absurd late none_late, fun _ _ _ => cap⟩
    simp [memory, grow, reset, warnings]
  have capped := memory_run (sound_init made) fresh ran
  have count := warnings_run (sound_init made) ran
  rw [show start.memory.warnings = 0 from warnings, Nat.zero_add] at count
  refine ⟨⟨fun gone late => ?_, capped.quiet quiet.1 quiet.2⟩, fun few => ?_⟩
  · have one : s.frameCacheSizeMaxInternal = 1 := (capped.late late).1
    omega
  · refine capped.quiet quiet.1 quiet.2 fun late => ?_
    have many := (capped.late late).2
    omega

/-- Four warnings before the first growing. -/
def fourWarnings : List FrameEvent :=
  List.replicate 4 .didReceiveMemoryWarning ++ List.replicate 3 .growFrameCacheSizeAfterMemoryWarning ++
    List.replicate 3 .resetFrameCacheSizeMaxInternal

theorem cap_goes_away_iff_fourWarnings : ∃ s,
    run step threeFrames fourWarnings = some s ∧ s.frameCacheSizeMaxInternal = 0 := by
  have ran : (run step threeFrames fourWarnings).any
      (fun s => decide (s.growRequests = 0 ∧ s.resetRequests = 0)) = true := by decide +kernel
  obtain ⟨s, done, quiet⟩ := Option.any_eq_true _ _ |>.mp ran
  exact ⟨s, done, (cap_goes_away_iff (Option.some_get _).symm done
    (of_decide_eq_true quiet)).1.mpr (by decide)⟩

end FLAnimatedImage

end SwiftApp
