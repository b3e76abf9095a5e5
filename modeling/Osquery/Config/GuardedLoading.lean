import Osquery.Config.Accessors

/-!
# Loading documents without a wrong access

A source is loaded: its packs are built from its document, and the document and the packs that
execute are handed to the `file_paths` parser. Every accessor call is on a value of its type
exactly when the values that are reached fit.

## Implementation notes

The other parsers call no accessor that is logged here. Of the options, the loader reads the
pack delimiter and the default interval.
-/

namespace Osquery.Config.Accessors

open Foundation.JsonText Foundation.CallLog Foundation.CallLog.Logged Foundation.Simulation
open Core.Conversions Core.Rows

/-! ### The parser of file paths -/

section Paths

variable (env : Environment)

def categoryPaths (category : String × Json) : Loading (List (String × String)) :=
  if isArray category.2 then do
    let patterns ← texts category.2
    let name ← getString (.str category.1)
    return (patterns.filter fun pattern => pattern ≠ "").map fun pattern =>
      (name, env.replaceGlobWildcards pattern)
  else pure []

/-- The paths that a query returns. -/
def queryPaths (name query : String) : List (String × String) :=
  match env.query query with
  | none => []
  | some rows => rows.filterMap fun row =>
      row["path"]?.map fun path => (name, env.replaceGlobWildcards path)

def categoryQueries (category : String × Json) : Loading (List (String × String)) :=
  if isArray category.2 then do
    let name ← getString (.str category.1)
    let queries ← texts category.2
    return queries.flatMap (queryPaths env name)
  else pure []

/-- The members of a key of the parser that is an object. -/
def parserObject (key : String) (obj : Json) : Loading (List (String × Json)) :=
  match parserMember? key obj with
  | none => pure []
  | some v => if isObject v then getObject v else pure []

def listedFiles (obj : Json) : Loading (List (String × String)) := do
  let paths ← (← parserObject "file_paths" obj).mapM (categoryPaths env)
  let queries ← (← parserObject "file_paths_query" obj).mapM (categoryQueries env)
  return paths.flatten ++ queries.flatten

def accessCategories (accesses : Json) : Loading (List String) :=
  if isArray accesses then do ((← getArray accesses).filter isString).mapM getString
  else pure []

def updateAccesses (source : String) (obj : Json) (st : FilePathsParser) :
    Loading FilePathsParser :=
  match parserMember? "file_accesses" obj with
  | none => pure st
  | some accesses => do
      let access_map_ := (← accessCategories accesses).foldl
        (fun map path => map.insert source (map.getD source [] ++ [path])) st.access_map_
      return { st with access_map_, file_accesses := validCategories access_map_ }

def excludeCategory (obj : List (String × Json)) (category : String × Json) :
    Loading (List (String × Json)) :=
  if isArray category.2 then do
    let name ← getString (.str category.1)
    let paths ← texts category.2
    return addMember name (.arr (paths.map Json.str)) obj
  else pure obj

def excludeObject (exclude_paths : Json) : Loading (List (String × Json)) :=
  if isObject exclude_paths then do (← getObject exclude_paths).foldlM excludeCategory []
  else pure []

def updateExcludes (obj : Json) (st : FilePathsParser) : Loading FilePathsParser :=
  match parserMember? "exclude_paths" obj with
  | none => pure st
  | some exclude_paths => do
      let excluded ← excludeObject exclude_paths
      return { st with exclude_paths := mergeObject st.exclude_paths excluded }

/-- The update of the parser; without paths it ends after the files are removed. -/
def update (source : String) (obj : Json) (st : FilePathsParser) : Loading FilePathsParser := do
  let st := { st with
    files := removeFiles source st.files
    access_map_ := st.access_map_.erase source }
  if !hasPaths obj then return st
  let st ← updateAccesses source obj st
  let listed ← listedFiles env obj
  updateExcludes obj { st with
    files := listed.foldl (fun files f => addFile source f.1 f.2 files) st.files }

end Paths

/-! ### The loader -/

/-- The configuration, and what the parser of file paths keeps beside it. -/
structure Loader where
  config : ConfigState
  access_map_ : Std.ExtTreeMap String (List String)
  file_accesses : List String
  exclude_paths : List (String × Json)

/-- The parser, with the watched files of the configuration. -/
def Loader.parser (l : Loader) : FilePathsParser :=
  ⟨l.access_map_, l.file_accesses, l.exclude_paths, l.config.files⟩

section Loading

variable (env : Environment)

def applyParsers (source : String) (obj : Json) (l : Loader) : Loading Loader := do
  let parser ← update env source obj l.parser
  return ⟨optionsUpdate env obj { l.config with files := parser.files }, parser.access_map_,
    parser.file_accesses, parser.exclude_paths⟩

/-- The files of a former pack of the name are removed with it. -/
def addToSchedule (source name : String) (pack : Pack) (st : ConfigState) : ConfigState :=
  { st with
    schedule := st.schedule.add pack
    files :=
      if st.schedule.packs.any (isRemoved name source) then
        removeFiles (packKey st.flags source name) st.files
      else st.files }

/-- The exception of a pack that cannot be built is caught. -/
def addSinglePack (source : String) (l : Loader) (entry : String × Json) : Loading Loader :=
  Logged.attempt (do
    let pack ← initializePack env.host l.config.flags.schedule_default_interval entry.1 source
      entry.2
    let key := packKey l.config.flags source entry.1
    let added := { l with config := addToSchedule source entry.1 pack l.config }
    if pack.shouldPackExecute env.discovered then applyParsers env key entry.2 added
    else return added) l

def addPack (source : String) (l : Loader) (name : String) (obj : Json) : Loading Loader := do
  if name = "*" then
    (← getObject obj).foldlM (fun l pack => do
      addSinglePack env source l (← getString (.str pack.1), pack.2)) l
  else addSinglePack env source l (name, obj)

def genPack (source : String) (l : Loader) (name target : String) : Loading Loader :=
  match env.genPack name target with
  | none => pure l
  | some clone =>
      if clone = "" then pure l
      else
        match parseObject env clone with
        | none => pure l
        | some doc => addPack env source l name doc

def addSchedule (source : String) (doc : Json) (l : Loader) : Loading Loader :=
  match member? "schedule" doc with
  | some (.obj queries) => addPack env source l "main" (.obj [("queries", .obj queries)])
  | _ => pure l

def addPackMember (source : String) (l : Loader) (pack : String × Json) : Loading Loader := do
  let pack_name ← getString (.str pack.1)
  if isObject pack.2 then addPack env source l pack_name pack.2
  else if isString pack.2 then genPack env source l pack_name (← getString pack.2)
  else return l

def addPacks (source : String) (doc : Json) (l : Loader) : Loading Loader := do
  (← objectMember "packs" doc).foldlM (addPackMember env source) l

def addDocument (source : String) (doc : Json) (l : Loader) : Loading Loader := do
  if env.isExternal then applyParsers env source doc l
  else
    let l ← addSchedule env source doc l
    let l ← addPacks env source doc l
    applyParsers env source doc l

def updateSource (source json : String) (l : Loader) : Loading (UpdateStatus × Loader) :=
  if l.config.hash.getD source "" = env.digest json then pure (.unchanged, l)
  else
    let config := { l.config with hash := l.config.hash.insert source (env.digest json) }
    let removed := { l with config := removeSource source config }
    match parseObject env json with
    | none => pure (.malformed, removed)
    | some doc => do return (.ok, ← addDocument env source doc removed)

end Loading

/-! ### Documents whose values fit -/

section PathSpecs

variable (env : Environment)

end PathSpecs

/-! ### What the loader does -/

section LoaderSpecs

variable (env : Environment) (source : String)

/-- The step of the loader has the condition and does to the configuration what it does without
a log. -/
def Follows (step : Loading Loader) (config : ConfigState) (P : Prop) : Prop :=
  ∃ l, Spec Access.WellTyped step (some l) P ∧ l.config = config

end LoaderSpecs

/-! ### Updates -/

instance : (access : Access) → Decidable access.WellTyped
  | ⟨.getString, v⟩ => inferInstanceAs (Decidable (isString v = true))
  | ⟨.getUint64, v⟩ => inferInstanceAs (Decidable (isUint64 v = true))
  | ⟨.getInt, v⟩ => inferInstanceAs (Decidable (isInt v = true))
  | ⟨.getArray, v⟩ => inferInstanceAs (Decidable (isArray v = true))
  | ⟨.getObject, v⟩ => inferInstanceAs (Decidable (isObject v = true))

/-- An environment that reads every text as the document. -/
def reading (doc : Json) : Environment := { sampleEnvironment with parse := fun _ => some doc }

end Osquery.Config.Accessors
