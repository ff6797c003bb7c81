import Mathlib.Data.List.Basic
import SwiftApp.StepRun

namespace SwiftApp

abbrev NSData := List UInt8

structure NSError where
  domain : String
  code : Int
  deriving DecidableEq, Repr

structure OSSPutObjectRequest where
  bucketName : String
  objectKey : String
  uploadingData : NSData
  deriving DecidableEq, Repr

def kAliBucketName : String := "file-tianliao"

def kAliImageURLPrefix : String := "https://file-tianliao.oss-cn-shenzhen.aliyuncs.com/"

/-- A call of a block the caller passed in. Blocks are known by number, so that the
log tells whose block was called. -/
inductive Callback
  | success (block : Nat) (objectKeys : List String)
  | successOne (block : Nat) (objectKey : String)
  | faile (block : Nat) (error : Option NSError)
  deriving DecidableEq, Repr

def Callback.isSuccess : Callback → Bool
  | .success _ _ | .successOne _ _ => true
  | .faile _ _ => false

def Callback.isFaile : Callback → Bool
  | .faile _ _ => true
  | _ => false

/-- The singleton. Its getter creates `dataSourece` on first use, so nil and the
empty array are the same; `callbacks` logs what the callers have been told. -/
structure AliyunOSSTool where
  dataSourece : List String
  callbacks : List Callback
  deriving DecidableEq, Repr

structure Upload where
  put : OSSPutObjectRequest
  index : Nat
  imageURL : String
  successBlock : Option Nat
  faile : Option Nat
  deriving DecidableEq, Repr

/-- `stringWithFormat:@"%@/%ld.png"`. Signed `long` overflow, undefined in C, stays outside. -/
def objectKey (folder : String) (stamp : Int) : String :=
  folder ++ "/" ++ toString stamp ++ ".png"

/-- The common body of `uploadOneImage:` and `uploadOneImages:` up to the put. -/
def uploadOne (bucketName : String) (imageURL : String → String) (imageData : NSData)
    (timeStamp : Int) (index : Nat) (successBlock faile : Option Nat) : Upload :=
  let key := objectKey "customer" (timeStamp + 10000 * index)
  { put := ⟨bucketName, key, imageData⟩, index := index, imageURL := imageURL key,
    successBlock := successBlock, faile := faile }

def uploadOneImage : NSData → Int → Nat → Option Nat → Option Nat → Upload :=
  uploadOne kAliBucketName fun key => kAliImageURLPrefix ++ key

def uploadOneImages (AliBucketName AliImageURLPrefix : String) :
    NSData → Int → Nat → Option Nat → Option Nat → Upload :=
  uploadOne AliBucketName fun key => AliImageURLPrefix ++ "/" ++ key

/-- The loop of both multi-image methods, from image `i` on; `clock i` is the time
read while image `i` is started. -/
def uploadLoop (uploadOneImage : NSData → Int → Nat → Upload) (clock : Nat → Int) :
    Nat → List NSData → AliyunOSSTool → AliyunOSSTool × List Upload
  | _, [], tool => (tool, [])
  | i, imageData :: imageDataArray, tool =>
    let tool := { tool with dataSourece := tool.dataSourece ++ ["notValue"] }
    let upload := uploadOneImage imageData (clock i) i
    let (tool, uploads) := uploadLoop uploadOneImage clock (i + 1) imageDataArray tool
    (tool, upload :: uploads)

def upLoadImageWithImageDataArray (imageDataArray : List NSData) (clock : Nat → Int)
    (successBlock faile : Option Nat) (tool : AliyunOSSTool) : AliyunOSSTool × List Upload :=
  uploadLoop (fun imageData timeStamp i => uploadOneImage imageData timeStamp i successBlock faile)
    clock 0 imageDataArray { tool with dataSourece := [] }

def newUpLoadImageWithImageDataArrays (imageDataArray : List NSData)
    (AliBucketName AliImageURLPrefix : String) (clock : Nat → Int)
    (successBlock faile : Option Nat) (tool : AliyunOSSTool) : AliyunOSSTool × List Upload :=
  uploadLoop (fun imageData timeStamp i =>
      uploadOneImages AliBucketName AliImageURLPrefix imageData timeStamp i successBlock faile)
    clock 0 imageDataArray { tool with dataSourece := [] }

/-- `none` is the NSRangeException. -/
def replaceObjectAtIndex (array : List String) (index : Nat) (object : String) :
    Option (List String) :=
  if index < array.length then some (array.set index object) else none

def AliyunOSSTool.callFaile (tool : AliyunOSSTool) (faile : Option Nat) (error : Option NSError) :
    AliyunOSSTool :=
  match faile with
  | none => tool
  | some block => { tool with callbacks := tool.callbacks ++ [.faile block error] }

/-- `[self.dataSourece replaceObjectAtIndex:index withObject:url]`. -/
def Upload.replace (u : Upload) (tool : AliyunOSSTool) : Option AliyunOSSTool :=
  (replaceObjectAtIndex tool.dataSourece u.index u.imageURL).map fun data =>
    { tool with dataSourece := data }

/-- `[self.dataSourece containsObject:@"notValue"]`. -/
def AliyunOSSTool.containsNotValue (tool : AliyunOSSTool) : Bool :=
  tool.dataSourece.contains "notValue"

/-- What the completion block does once no `notValue` was found. -/
def Upload.report (u : Upload) (tool : AliyunOSSTool) : AliyunOSSTool :=
  match u.successBlock with
  | none => tool
  | some block =>
    if tool.dataSourece.length < 1 then tool.callFaile u.faile none
    else { tool with callbacks := tool.callbacks ++ [.success block tool.dataSourece] }

/-- The block both multi-image methods put on the main queue, with the error of the
task it sees. -/
def Upload.completion (u : Upload) (error : Option NSError) (tool : AliyunOSSTool) :
    Option AliyunOSSTool :=
  match error with
  | none =>
    (u.replace tool).map fun tool => if tool.containsNotValue then tool else u.report tool
  | some e => some (({ tool with dataSourece := [] } : AliyunOSSTool).callFaile u.faile (some e))

/-- The block on the put task: `task` is overwritten by the presign task before its
error is read, so the error of the put is lost. -/
def Upload.continueWith (presign : String → String → Option NSError) (u : Upload)
    (_putError : Option NSError) : Option NSError :=
  presign u.put.bucketName u.put.objectKey

/-- One completion block on the main queue; `errors` gives the error each one sees. -/
def handle (errors : Upload → Option NSError) (tool : AliyunOSSTool) (u : Upload) :
    Option AliyunOSSTool :=
  u.completion (errors u) tool

/-- The single-image method: its key, and the block it puts on the main queue. The
error branch only writes to the system log. -/
def upLoadImageWithImageData (imageData : NSData) (AliBucketName AliImageURLPrefix : String)
    (timeStamp : Int) (rand₁ rand₂ : UInt32) (successBlock faile : Option Nat) : Upload :=
  let key := objectKey "tomer" (timeStamp + (rand₁ % 1000).toNat + (rand₂ % 1000000).toNat)
  { put := ⟨AliBucketName, key, imageData⟩, index := 0,
    imageURL := AliImageURLPrefix ++ "/" ++ key, successBlock := successBlock, faile := faile }

def Upload.singleCompletion (u : Upload) (error : Option NSError) (tool : AliyunOSSTool) :
    AliyunOSSTool :=
  match error with
  | none =>
    match u.successBlock with
    | none => tool
    | some block => { tool with callbacks := tool.callbacks ++ [.successOne block u.imageURL] }
  | some _ => tool

inductive EntryPoint
  | imageDataArray
  | newImageDataArrays (AliBucketName AliImageURLPrefix : String)
  deriving DecidableEq, Repr

def EntryPoint.start : EntryPoint → List NSData → (Nat → Int) → Option Nat → Option Nat →
    AliyunOSSTool → AliyunOSSTool × List Upload
  | .imageDataArray, images, clock, successBlock, faile, tool =>
    upLoadImageWithImageDataArray images clock successBlock faile tool
  | .newImageDataArrays bucket urlPrefix, images, clock, successBlock, faile, tool =>
    newUpLoadImageWithImageDataArrays images bucket urlPrefix clock successBlock faile tool

def EntryPoint.bucketName : EntryPoint → String
  | .imageDataArray => kAliBucketName
  | .newImageDataArrays bucket _ => bucket

def EntryPoint.imageURL : EntryPoint → String → String
  | .imageDataArray, key => kAliImageURLPrefix ++ key
  | .newImageDataArrays _ urlPrefix, key => urlPrefix ++ "/" ++ key

def EntryPoint.uploads (entry : EntryPoint) (images : List NSData) (clock : Nat → Int)
    (successBlock faile : Option Nat) : List Upload :=
  images.mapIdx fun i imageData =>
    uploadOne entry.bucketName entry.imageURL imageData (clock i) i successBlock faile

theorem uploadLoop_eq {one : NSData → Int → Nat → Upload} {clock : Nat → Int} {i : Nat}
    {images : List NSData} {tool : AliyunOSSTool} :
    uploadLoop one clock i images tool =
      ({ tool with dataSourece := tool.dataSourece ++ List.replicate images.length "notValue" },
        images.mapIdx fun k imageData => one imageData (clock (i + k)) (i + k)) := by
  induction images generalizing i tool with
  | nil => simp [uploadLoop]
  | cons imageData images ih =>
    simp only [uploadLoop, ih, List.append_assoc, List.singleton_append, List.length_cons,
      List.replicate_succ, List.mapIdx_cons, Nat.add_zero]
    congr 3
    funext k d
    rw [show i + 1 + k = i + (k + 1) by omega]

theorem EntryPoint.start_eq (entry : EntryPoint) (images : List NSData) (clock : Nat → Int)
    (successBlock faile : Option Nat) (tool : AliyunOSSTool) :
    entry.start images clock successBlock faile tool =
      ({ tool with dataSourece := List.replicate images.length "notValue" },
        entry.uploads images clock successBlock faile) := by
  cases entry
  case imageDataArray =>
    simp only [EntryPoint.start, upLoadImageWithImageDataArray, uploadLoop_eq, List.nil_append, Nat.zero_add]
    rfl
  case newImageDataArrays =>
    simp only [EntryPoint.start, newUpLoadImageWithImageDataArrays, uploadLoop_eq, List.nil_append, Nat.zero_add]
    rfl

end SwiftApp
