import Onboarding.Number.Decimal
import Onboarding.Text.Blank
import Onboarding.Text.Quoted

/-!
# Onboarding — settings

The settings of a host come from named texts, such as the variables of its
environment. A setting that is missing has a default; the first one that makes
no sense is an error.
-/

namespace Onboarding

/-- Why settings make no sense. -/
inductive SettingsError where
  | missingRequired (key hint : String)
  | invalidValue (key reason : String)
deriving DecidableEq

/-- The wording of an error. -/
def SettingsError.message : SettingsError → String
  | missingRequired key hint => "Missing required configuration: " ++ key ++ ". " ++ hint
  | invalidValue key reason => "Invalid configuration value for " ++ key ++ ": " ++ reason

/-- Where a flow comes from. -/
inductive SourcePlace where
  | url (address : String)
  | file (path : String)
deriving DecidableEq

/-- The assistant to ask. -/
structure AssistSettings where
  url : String
  key : Option String
deriving DecidableEq

/-- The settings of a host. -/
structure Settings where
  /-- Where the flow comes from, if anything says so. -/
  source : Option SourcePlace := none
  /-- The file that the last good flow is kept in. -/
  cachePath : Option String := none
  user : String := "anonymous"
  /-- The address that analytics records are sent to. -/
  analyticsUrl : Option String := none
  /-- So many records are sent at once. -/
  batchSize : Nat := 20
  /-- Records are sent at least this often. -/
  flushSeconds : Nat := 10
  assist : Option AssistSettings := none
deriving DecidableEq

namespace Settings

/-! ## Names -/

/-- The name of the source's address. -/
def sourceUrlName : String := "SCREENFLOW_SOURCE_URL"

/-- The name of the source's file. -/
def sourceFileName : String := "SCREENFLOW_SOURCE_FILE"

/-- The name of the cache file. -/
def cachePathName : String := "SCREENFLOW_CACHE_PATH"

/-- The name of the user. -/
def userName : String := "SCREENFLOW_USER_ID"

/-- The name of the analytics address. -/
def analyticsUrlName : String := "SCREENFLOW_ANALYTICS_URL"

/-- The name of the batch size. -/
def batchSizeName : String := "SCREENFLOW_ANALYTICS_BATCH_SIZE"

/-- The name of the seconds between two sendings. -/
def flushSecondsName : String := "SCREENFLOW_ANALYTICS_FLUSH_SECS"

/-- The name of the assistant's address. -/
def assistUrlName : String := "SCREENFLOW_ASSIST_URL"

/-- The name of the assistant's key. -/
def assistKeyName : String := "SCREENFLOW_ASSIST_KEY"

/-- All names that settings are looked up under. -/
def keys : List String :=
  [sourceUrlName, sourceFileName, cachePathName, userName, analyticsUrlName, batchSizeName,
    flushSecondsName, assistUrlName, assistKeyName]

/-! ## Reading -/

/-- The values of a machine word. -/
def wordBound : Nat := Nat.pow 2 64

/-- The number under a name; blanks around it do not count. -/
def number (lookup : String → Option String) (key : String) (default : Nat) :
    Except SettingsError Nat :=
  match lookup key with
  | none => .ok default
  | some text =>
    match Decimal.readNat? wordBound (Text.trim text.toList) with
    | some n => .ok n
    | none =>
      .error (.invalidValue key ("expected a non-negative integer, got " ++ Text.quote text))

/-- The size of a batch. -/
def readBatchSize (lookup : String → Option String) : Except SettingsError Nat :=
  match number lookup batchSizeName 20 with
  | .ok 0 => .error (.invalidValue batchSizeName "must be at least 1")
  | result => result

/-- The assistant, which a key alone does not make. -/
def readAssist (lookup : String → Option String) :
    Except SettingsError (Option AssistSettings) :=
  match lookup assistUrlName, lookup assistKeyName with
  | some url, key => .ok (some { url, key })
  | none, none => .ok none
  | none, some _ => .error
    (.missingRequired assistUrlName (assistKeyName ++ " is set but no endpoint was given"))

/-- The source; an address wins over a file. -/
def readSource (lookup : String → Option String) : Option SourcePlace :=
  match lookup sourceUrlName with
  | some url => some (.url url)
  | none => (lookup sourceFileName).map .file

/-- The settings that texts under names make. -/
def ofLookup (lookup : String → Option String) : Except SettingsError Settings := do
  let batchSize ← readBatchSize lookup
  let flushSeconds ← number lookup flushSecondsName 10
  let assist ← readAssist lookup
  pure {
    source := readSource lookup
    cachePath := lookup cachePathName
    user := (lookup userName).getD "anonymous"
    analyticsUrl := lookup analyticsUrlName
    batchSize
    flushSeconds
    assist }

end Settings

end Onboarding
