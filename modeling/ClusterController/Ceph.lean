import ClusterController.Kube

/-!
# Volumes and images in Ceph

`shared::ceph`: the wrappers around librados and librbd, with a handle for every open
cluster, pool and image. On top of it the controllers for volumes and images.
-/

namespace ClusterController

open ApiServer (StringMap Key KubeError Resource)
open Interaction (Program)

/-! ## librados and librbd -/

/-- The `call!` macro: a negative code of the call becomes an error that names it. -/
def cephCall (operation : String) (r : CephRequest) : Prog r.Answer := do
  match (← ask (.ceph r) : Except Int r.Answer) with
  | .ok a => .ret a
  | .error code => .fail (.rados operation code)

/-- A call whose return code is not looked at. -/
def cephCallUnchecked (r : CephRequest) : Prog Unit := do
  let _ ← ask (.ceph r)

/-- The text has no NUL byte. -/
def NulFree (text : String) : Prop := 0 ∉ text.toUTF8.toList

instance (text : String) : Decidable (NulFree text) := inferInstanceAs (Decidable (0 ∉ text.toUTF8.toList))

/-- `CString::new` with `expect`. Names that are constants of the source are not checked. -/
def cStringNew (text msg : String) : Prog Unit := if NulFree text then .ret () else .abort msg

theorem cStringNew_of_nulFree {text msg : String} (h : NulFree text) : cStringNew text msg = .ret () := if_pos h

namespace Ceph

/-- One name of the `create_cstring!` macro -/
def createCString (name value : String) : Prog Unit := cStringNew value ("Failed to create CString " ++ name)

def connect : Prog Nat := do
  let cluster ← cephCall "rados_create" .radosCreate
  let _ ← cephCall "rados_conf_read_file" (.radosConfReadFile cluster)
  let _ ← cephCall "rados_conf_set" (.radosConfSet cluster)
  let _ ← cephCall "rados_conect" (.radosConnect cluster)
  return cluster

def disconnect (cluster : Nat) : Prog Unit := cephCallUnchecked (.radosShutdown cluster)

def getPool (cluster : Nat) (poolName : String) : Prog Nat :=
  cephCall "rados_ioctx_create" (.radosIoctxCreate cluster poolName)

def closePool (pool : Nat) : Prog Unit := cephCallUnchecked (.radosIoctxDestroy pool)

/-- `String::from_utf8` -/
def stringFromUtf8 (bytes : List UInt8) : Option String := String.fromUTF8? ⟨bytes.toArray⟩

/-- Strings of items up to the first empty one. -/
def decodeItems : List (List UInt8) → Except String (List String)
  | [] => .ok []
  | item :: items =>
    if item.isEmpty then .ok []
    else do
      match stringFromUtf8 item with
      | some s => return s :: (← decodeItems items)
      | none => .error "Failed to convert pool name to String"

def nullSeparatedToVec (nullSeparatedList : List UInt8) : Except String (List String) :=
  decodeItems (nullSeparatedList.splitOn 0)

def getImages (pool : Nat) : Prog (List String) := do
  let buffer ← cephCall "rbd_list" (.rbdList pool 32768)
  orPanic (nullSeparatedToVec buffer)

def createImage (pool : Nat) (name : String) (size : UInt64) : Prog Unit := do
  cStringNew name "failed to convert to cstring"
  cephCall "rbd_create" (.rbdCreate pool name size)

def getFeatures (pool : Nat) (name snapshot : String) : Prog UInt64 := do
  createCString "name_c" name
  createCString "snapshot_c" snapshot
  let image ← cephCall "rbd_open" (.rbdOpen pool name snapshot)
  let features ← cephCall "rbd_get_features" (.rbdGetFeatures image)
  let _ ← cephCall "rbd_close" (.rbdClose image)
  return features

/-- The size is not used: a clone has the size of its template. -/
def cloneImage (pool : Nat) (name : String) (_size : UInt64) (templatePool : Nat)
    (templateName : String) : Prog Unit := do
  createCString "name_c" name
  createCString "template_name_c" templateName
  let features ← getFeatures templatePool templateName "default"
  cephCall "rbd_clone" (.rbdClone templatePool templateName "default" pool name features)

def removeImage (pool : Nat) (name : String) : Prog Unit := do
  cStringNew name "failed to convert to cstring"
  cephCall "rbd_delete" (.rbdRemove pool name)

def authGetKey (cluster : Nat) (keyName : String) : Prog String := do
  let outbuf ← cephCall "rados_mon_command (auth get-key)"
    (.radosMonCommand cluster [("prefix", "auth get-key"), ("entity", keyName)])
  if outbuf.isEmpty then .fail (.rados "auth get-key" 1)
  else expect (stringFromUtf8 outbuf) "Failed to decode key"

def openImage (pool : Nat) (imageName : String) : Prog Nat := do
  cStringNew imageName "Failed to create CString"
  cephCall "rbd_open_read_only" (.rbdOpenReadOnly pool imageName)

/-- The error code that reports locks which do not fit the empty buffers. -/
def negErange : Int := -34

/-- `lowlevel::has_locks` -/
def hasLocksInPool (pool : Nat) (imageName : String) : Prog Bool := do
  let image ← openImage pool imageName
  let lockers ← cephCall "rbd_list_lockers" (.rbdListLockers image)
  if lockers.code = 0 then return false
  else if lockers.code = negErange then
    return 0 < lockers.clientsLen || 0 < lockers.cookiesLen || 0 < lockers.addrsLen
  else .fail (.rados "rbd_list_lockers" lockers.code)

/-- `ceph::has_locks` -/
def hasLocks (poolName imageName : String) : Prog Bool := do
  let cluster ← connect
  let pool ← getPool cluster poolName
  hasLocksInPool pool imageName

end Ceph

/-! ## Volumes -/

def poolVolumes : String := "volumes"
def poolTemplates : String := "templates"

namespace Volumes

/-- Create the image of a volume, from its template if it has one. -/
def makeImage (volumePool templatePool : Nat) (name : String) (size : UInt64)
    (template : Option String) : Prog Unit :=
  match template with
  | some templateName => Ceph.cloneImage volumePool name size templatePool templateName
  | none => Ceph.createImage volumePool name size

/-- Create the image of a volume if it does not exist. -/
def ensureExists (name : String) (size : UInt64) (template : Option String) : Prog Unit := do
  let cluster ← Ceph.connect
  let volumePool ← Ceph.getPool cluster poolVolumes
  let templatePool ← Ceph.getPool cluster poolTemplates
  let images ← Ceph.getImages volumePool
  onlyIf (name ∉ images) (makeImage volumePool templatePool name size template)
  Ceph.closePool volumePool
  Ceph.closePool templatePool
  Ceph.disconnect cluster

/-- Remove the image of a volume if it exists. -/
def ensureRemoved (name : String) : Prog Unit := do
  let cluster ← Ceph.connect
  let pool ← Ceph.getPool cluster poolVolumes
  let images ← Ceph.getImages pool
  onlyIf (name ∈ images) (Ceph.removeImage pool name)

def keyring : String := "client.libvirt"

def getCephKeyring : Prog String := do
  let cluster ← Ceph.connect
  let key ← Ceph.authGetKey cluster keyring
  Ceph.disconnect cluster
  return key

/-- `update_fn` of the volume controller -/
def updateVolume [Crates] (volume : Volume) : Prog Unit := do
  let name := namePrefixedWithNamespace volume.key
  match Crates.parseBytes volume.spec.size with
  | none => .fail .parseHumanize
  | some bytes =>
    let _ ← ensureFinalizer volume "ceph"
    ensureExists name bytes volume.spec.template

/-- `remove_fn` of the volume controller -/
def removeVolume (volume : Volume) : Prog Unit := do
  let name := namePrefixedWithNamespace volume.key
  ensureRemoved name
  let _ ← removeFinalizer volume "ceph"

end Volumes

/-! ## Images -/

namespace Images

def cephEnsureImageExists (name _source : String) : Prog Unit := do
  let cluster ← Ceph.connect
  let templatePool ← Ceph.getPool cluster poolTemplates
  let images ← Ceph.getImages templatePool
  onlyIf (name ∉ images) (.fail (.notImplemented "image download/copy"))
  Ceph.closePool templatePool
  Ceph.disconnect cluster

def cephEnsureImageRemoved (name : String) : Prog Unit := do
  let cluster ← Ceph.connect
  let pool ← Ceph.getPool cluster poolTemplates
  let images ← Ceph.getImages pool
  onlyIf (name ∈ images) (Ceph.removeImage pool name)

/-- `update_fn` of the image controller -/
def updateImage (image : Image) : Prog Unit := do
  let name := namePrefixedWithNamespace image.key
  let _ ← ensureFinalizer image "ceph"
  cephEnsureImageExists name image.spec.source

/-- `remove_fn` of the image controller -/
def removeImage (image : Image) : Prog Unit := do
  let name := namePrefixedWithNamespace image.key
  cephEnsureImageRemoved name
  let _ ← removeFinalizer image "ceph"

end Images

end ClusterController
