import Osquery.EventPublishers.PathSet
import Osquery.Core.Status
import Osquery.Foundation.Ownership

/-!
# The inotify publisher

A subscription context knows the paths that are watched for it by their descriptors, and the
publisher knows the context of every descriptor. A descriptor that the kernel returns again is
taken from the context that it had. Subscriptions are only marked when they are removed; the
next configuration deletes them with their watches and watches the paths of the others.

## Implementation notes

Contexts are objects that the subscriber shares with the publisher, so they are found by
reference. The kernel, the file system and the expansion of patterns are inputs of every call,
and Boost's parts of a path are as well. Overflows only change the size of a buffer and are
left out, as are locks, log lines and callbacks; an event gives the subscriptions that it is
for. Adding a watch for a child directory is adding one that is not recursive.
-/

namespace Osquery.EventPublishers

open Core Foundation

abbrev ContextRef := ℕ

structure INotifySubscriptionContext where
  path : String
  opath : String
  mask : UInt32 := 0
  recursive : Bool := false
  category : String
  mark_for_deletion : Bool := false
  recursive_match : Bool := false
  descriptor_paths_ : Std.ExtTreeMap Int String := ∅
  path_sc_time_ : Std.ExtTreeMap String Int := ∅

/-- The comparison of subscriptions. -/
def INotifySubscriptionContext.same (lsc rsc : INotifySubscriptionContext) : Bool :=
  lsc.category == rsc.category && lsc.opath == rsc.opath

structure Subscription where
  subscriber_name : String
  context : ContextRef
  deriving DecidableEq

structure INotifyEvent where
  wd : Int
  mask : UInt32
  len : ℕ
  name : String

structure INotifyEventContext where
  event : INotifyEvent
  path : String := ""
  action : String := ""
  isub_ctx : Option ContextRef := none

/-- The calls of the kernel on watches. -/
structure Inotify (κ : Type) where
  inotify_add_watch : κ → String → UInt32 → Int × κ
  inotify_rm_watch : κ → Int → κ

structure WatchedFileSystem extends FileSystem where
  st_ctime : String → Option Int
  resolveFilePattern : String → List String
  listDirectoriesInDirectory : String → List String
  filename : String → String
  parent_path : String → String

structure INotifyEventPublisher (κ : Type) where
  kernel : κ
  inotify_handle_ : Int := -1
  inotify_sanity_check : Bool := false
  subscriptions_ : List Subscription := []
  contexts : ContextRef → INotifySubscriptionContext
  path_descriptors_ : Std.ExtTreeMap String Int := ∅
  descriptor_inosubctx_ : Std.ExtTreeMap Int ContextRef := ∅
  exclude_paths_ : PathSet := .nil

/-! ### Masks and patterns -/

def kMaskActions : List (UInt32 × String) :=
  [(0x1, "ACCESSED"), (0x2, "UPDATED"), (0x4, "ATTRIBUTES_MODIFIED"), (0x8, "UPDATED"),
    (0x20, "OPENED"), (0x40, "MOVED_FROM"), (0x80, "MOVED_TO"), (0x100, "CREATED"),
    (0x200, "DELETED")]

def kFileDefaultMasks : UInt32 := 0x80 ||| 0x40 ||| 0x2 ||| 0x200 ||| 0x100 ||| 0x8 ||| 0x4

def maskDeleteSelf : UInt32 := 0x400

def maskMoveSelf : UInt32 := 0x800

def maskQueueOverflow : UInt32 := 0x4000

def maskIgnored : UInt32 := 0x8000

def actionOf (mask : UInt32) : String :=
  match kMaskActions.find? fun action => mask &&& action.1 != 0 with
  | none => ""
  | some action => action.2

/-- The characters before the first double wildcard. -/
def stem : List Char → Option (List Char)
  | [] => none
  | '*' :: '*' :: _ => some []
  | c :: cs => (stem cs).map (c :: ·)

def hasWildcard (path : String) : Bool := path.toList.contains '*'

def endsWithSlash (path : String) : Bool := path.toList.getLast? == some '/'

/-- The path before the last slash. -/
def beforeLastSlash (path : String) : String :=
  if path.toList.contains '/' then
    String.ofList ((path.toList.reverse.dropWhile (· ≠ '/')).drop 1).reverse
  else path

/-- What a subscription's path stands for: the path that it becomes, and the paths to watch. -/
structure Discovery where
  path : String
  recursive : Bool
  resolved : Bool
  paths : List String

def discover (fs : WatchedFileSystem) (path : String) (recursive : Bool) : Discovery :=
  let recursive := recursive || (stem path.toList).isSome
  let path := ((stem path.toList).map String.ofList).getD path
  let discovered :=
    if hasWildcard path ∧ hasWildcard (fs.filename path) then fs.parent_path path ++ "/"
    else path
  if hasWildcard path ∧ hasWildcard discovered then
    ⟨path, recursive, true, fs.resolveFilePattern discovered⟩
  else if fs.isDirectory discovered ∧ ¬ endsWithSlash discovered then
    ⟨path ++ "/", recursive, false, [discovered ++ "/"]⟩
  else ⟨path, recursive, false, [discovered]⟩

namespace INotifyEventPublisher

variable {κ : Type} (k : Inotify κ) (fs : WatchedFileSystem)

def modifyContext (s : INotifyEventPublisher κ) (isc : ContextRef)
    (f : INotifySubscriptionContext → INotifySubscriptionContext) : INotifyEventPublisher κ :=
  { s with contexts := Function.update s.contexts isc (f (s.contexts isc)) }

/-- The sanity check forgets the path of a descriptor, reading it with a default. -/
def forgetPath (s : INotifyEventPublisher κ) (isc : ContextRef) (watch : Int) :
    INotifyEventPublisher κ :=
  if s.inotify_sanity_check then
    let watched_path := (s.contexts isc).descriptor_paths_.getD watch ""
    { s.modifyContext isc fun c =>
        { c with descriptor_paths_ := c.descriptor_paths_.insertIfNew watch "" } with
      path_descriptors_ := s.path_descriptors_.erase watched_path }
  else s

/-! ### Watches -/

/-- A descriptor that the kernel returns again is taken from the context that it has. -/
def takeWatch (s : INotifyEventPublisher κ) (watch : Int) : INotifyEventPublisher κ :=
  match s.descriptor_inosubctx_[watch]? with
  | none => s
  | some ino_sc =>
      let s := s.forgetPath ino_sc watch
      let s := s.modifyContext ino_sc fun c =>
        { c with descriptor_paths_ := c.descriptor_paths_.erase watch }
      { s with descriptor_inosubctx_ := s.descriptor_inosubctx_.erase watch }

/-- Both maps record the descriptor. -/
def giveWatch (s : INotifyEventPublisher κ) (watch : Int) (isc : ContextRef) (path : String) :
    INotifyEventPublisher κ :=
  { s.modifyContext isc fun c =>
      { c with descriptor_paths_ := c.descriptor_paths_.insert watch path } with
    descriptor_inosubctx_ := s.descriptor_inosubctx_.insert watch isc }

/-- The sanity check keeps the descriptor of a path. -/
def notePath (s : INotifyEventPublisher κ) (path : String) (watch : Int) :
    INotifyEventPublisher κ :=
  if s.inotify_sanity_check then
    { s with path_descriptors_ := s.path_descriptors_.insert path watch }
  else s

def withKernel (s : INotifyEventPublisher κ) (kernel : κ) : INotifyEventPublisher κ :=
  { s with kernel := kernel }

/-- The watch that the kernel adds for a path. -/
def addedWatch (s : INotifyEventPublisher κ) (path : String) (mask : UInt32) : Int × κ :=
  k.inotify_add_watch s.kernel path (if mask = 0 then kFileDefaultMasks else mask)

/-- One path is watched for a context. -/
def watchPath (s : INotifyEventPublisher κ) (path : String) (isc : ContextRef) (mask : UInt32)
    (add_watch : Bool) : Bool × INotifyEventPublisher κ :=
  let added := s.addedWatch k path mask
  let watch := added.1
  let s := s.withKernel added.2
  if add_watch ∧ watch = -1 then (false, s)
  else (true, ((s.takeWatch watch).giveWatch watch isc path).notePath path watch)

def addMonitor (s : INotifyEventPublisher κ) (path : String) (isc : ContextRef) (mask : UInt32)
    (recursive add_watch : Bool) : Bool × INotifyEventPublisher κ :=
  let added := s.watchPath k path isc mask add_watch
  if added.1 ∧ recursive ∧ fs.isDirectory path then
    (true, (fs.listDirectoriesInDirectory path).foldl (fun s child =>
      (s.watchPath k (fs.canonical child ++ "/") isc mask true).2) added.2)
  else added

def removeMonitor (s : INotifyEventPublisher κ) (watch : Int) (force batch_del : Bool) :
    Bool × INotifyEventPublisher κ :=
  match s.descriptor_inosubctx_[watch]? with
  | none => (false, s)
  | some isc =>
      let s := { s with descriptor_inosubctx_ := s.descriptor_inosubctx_.erase watch }
      let s := s.forgetPath isc watch
      let s := if batch_del then s else s.modifyContext isc fun c =>
        { c with descriptor_paths_ := c.descriptor_paths_.erase watch }
      (true, if force then s.withKernel (k.inotify_rm_watch s.kernel watch) else s)

/-- A path is watched unless its status change time is the one it had. -/
def needMonitoring (s : INotifyEventPublisher κ) (path : String) (isc : ContextRef) :
    INotifyEventPublisher κ :=
  let sc_time := (s.contexts isc).path_sc_time_.getD path 0
  let s := s.modifyContext isc fun c =>
    { c with path_sc_time_ := c.path_sc_time_.insertIfNew path 0 }
  match fs.st_ctime path with
  | none => s
  | some st_ctime =>
      if sc_time ≠ st_ctime then
        let added := s.addMonitor k fs path isc (s.contexts isc).mask (s.contexts isc).recursive true
        if added.1 then
          added.2.modifyContext isc fun c =>
            { c with path_sc_time_ := c.path_sc_time_.insert path st_ctime }
        else added.2
      else s

def monitorSubscription (s : INotifyEventPublisher κ) (sc : ContextRef) :
    INotifyEventPublisher κ :=
  let d := discover fs (s.contexts sc).path (s.contexts sc).recursive
  let s := s.modifyContext sc fun c =>
    { c with
      path := d.path
      recursive := d.recursive
      recursive_match := if d.resolved then d.recursive else c.recursive_match }
  d.paths.foldl (fun s path => s.needMonitoring k fs path sc) s

/-! ### Subscriptions -/

def removeSubscriptions (s : INotifyEventPublisher κ) (subscriber : String) :
    INotifyEventPublisher κ :=
  (s.subscriptions_.filter fun sub => sub.subscriber_name == subscriber).foldl
    (fun s sub => s.modifyContext sub.context fun c => { c with mark_for_deletion := true }) s

def addSubscription (s : INotifyEventPublisher κ) (subscription : Subscription) :
    Status × INotifyEventPublisher κ :=
  match s.subscriptions_.find? fun sub =>
    (s.contexts subscription.context).same (s.contexts sub.context) with
  | none => (⟨0, ""⟩, { s with subscriptions_ := s.subscriptions_ ++ [subscription] })
  | some sub =>
      if (s.contexts sub.context).mark_for_deletion then
        (⟨0, ""⟩, s.modifyContext sub.context fun c => { c with mark_for_deletion := false })
      else (⟨1, ""⟩, s)

def isMarked (s : INotifyEventPublisher κ) (sub : Subscription) : Bool :=
  (s.contexts sub.context).mark_for_deletion

/-- A deleted subscription loses its watches. -/
def unwatch (s : INotifyEventPublisher κ) (sub : Subscription) : INotifyEventPublisher κ :=
  let s := (s.contexts sub.context).descriptor_paths_.keys.foldl
    (fun s watch => (s.removeMonitor k watch true true).2) s
  s.modifyContext sub.context fun c => { c with descriptor_paths_ := ∅ }

/-- The subscriptions that are marked are deleted with their watches. -/
def deleteMarked (s : INotifyEventPublisher κ) : INotifyEventPublisher κ :=
  (s.subscriptions_.filter s.isMarked).foldl (unwatch k)
    { s with subscriptions_ := s.subscriptions_.filter fun sub => !s.isMarked sub }

def buildExcludePathsSet (s : INotifyEventPublisher κ) (exclude_paths : List String) :
    INotifyEventPublisher κ :=
  { s with
    exclude_paths_ := PathSet.insertAll fs.toFileSystem (exclude_paths.filter (· ≠ "")) }

def configure (s : INotifyEventPublisher κ) (exclude_paths : List String) :
    INotifyEventPublisher κ :=
  if s.inotify_handle_ = -1 then s
  else
    let s := (s.deleteMarked k).buildExcludePathsSet fs exclude_paths
    s.subscriptions_.foldl (fun s sub => s.monitorSubscription k fs sub.context) s

/-! ### Events -/

/-- The context of an event. There is none when a lookup throws. -/
def createEventContextFrom (s : INotifyEventPublisher κ) (event : INotifyEvent) :
    Option INotifyEventContext :=
  match s.descriptor_inosubctx_[event.wd]? with
  | none => some { event := event }
  | some isc =>
      match (s.contexts isc).descriptor_paths_[event.wd]? with
      | none => none
      | some path => some
          { event := event
            path := if event.len > 1 then path ++ event.name else path
            action := actionOf event.mask
            isub_ctx := some isc }

def excludes (s : INotifyEventPublisher κ) (path : String) : Bool :=
  s.exclude_paths_.find (beforeLastSlash path) || s.exclude_paths_.find path

def shouldFire (s : INotifyEventPublisher κ) (sc : ContextRef) (ec : INotifyEventContext) :
    Bool × INotifyEventPublisher κ :=
  let c := s.contexts sc
  if ec.isub_ctx ≠ some sc then (false, s)
  else if c.mask ≠ 0 ∧ ec.event.mask &&& c.mask = 0 then (false, s)
  else
    let s :=
      if c.recursive ∧ ec.action = "CREATED" ∧ fs.isDirectory ec.path then
        (s.addMonitor k fs (ec.path ++ "/") sc c.mask true true).2
      else s
    (!s.excludes ec.path, s)

/-- The subscriptions of running subscribers that an event is for. -/
def fire (running : String → Bool) (s : INotifyEventPublisher κ) (ec : INotifyEventContext) :
    List Subscription × INotifyEventPublisher κ :=
  (s.subscriptions_.filter fun sub => running sub.subscriber_name).foldl (fun fired sub =>
    let result := fired.2.shouldFire k fs sub.context ec
    (if result.1 then fired.1 ++ [sub] else fired.1, result.2)) ([], s)

/-- What an event that was read leads to, unless a lookup throws. -/
def handle (running : String → Bool) (s : INotifyEventPublisher κ) (event : INotifyEvent) :
    Option (List Subscription × INotifyEventPublisher κ) :=
  if event.mask &&& maskQueueOverflow ≠ 0 then some ([], s)
  else if event.mask &&& maskIgnored ≠ 0 then
    some ([], (s.removeMonitor k event.wd false false).2)
  else if event.mask &&& maskMoveSelf ≠ 0 then
    some ([], (s.removeMonitor k event.wd true false).2)
  else if event.mask &&& maskDeleteSelf ≠ 0 then
    some ([], (s.removeMonitor k event.wd false false).2)
  else
    (s.createEventContextFrom event).map fun ec =>
      if ec.action ≠ "" then s.fire k fs running ec else ([], s)

end INotifyEventPublisher

end Osquery.EventPublishers
