import Onboarding.Console.Basic
import Onboarding.Settings
import Onboarding.Source.Cached

/-!
# Onboarding — starting the console

A console starts from settings: it finds the flow at the place they name, keeps
or recalls the last good flow, and enters it. What the settings name lies on a
host, which is given by what it answers.
-/

namespace Onboarding

/-- What the machine and the network around a console answer. -/
structure Host where
  /-- The texts under names. -/
  setting : String → Option String
  /-- The text of a file, if it can be read. -/
  file : String → Option String
  /-- The source at an address. -/
  sourceAt : String → Source
  /-- The assistant of the settings. -/
  assistant : AssistSettings → Assistant

/-- Why a console does not start. -/
inductive LaunchError where
  | settings (cause : SettingsError)
  | noSource
  | flow (cause : SessionError)
deriving DecidableEq

/-- The wording of an error, line by line. -/
def LaunchError.lines : LaunchError → List String
  | settings cause =>
    ["invalid SCREENFLOW_* configuration", "", "Caused by:", "    " ++ cause.message]
  | noSource =>
    ["no screen source configured",
      "  export SCREENFLOW_SOURCE_URL=https://... or SCREENFLOW_SOURCE_FILE=./flow.json"]
  | flow cause => [cause.message]

/-- How the start of a console went. -/
structure Launch where
  said : List Saying := []
  /-- The cache file and its new text. -/
  written : Option (String × String) := none
  result : Except LaunchError Console

namespace Console

/-- The source at a place. -/
def sourceOf (host : Host) : SourcePlace → Source
  | .url address => host.sourceAt address
  | .file path => Source.ofFile (host.file path)

/-- What a console says at its start. -/
def banner (settings : Settings) : List Saying :=
  [.notice "screenflow v0.1.0", .notice ("   User: " ++ settings.user)] ++
    (settings.assist.map fun assist => .notice ("   Assist: " ++ assist.url)).toList ++
    [.notice ("   " ++ help), .notice ""]

/-- Enter a flow with a session for the user. -/
def enter (host : Host) (settings : Settings) (source : Source) :
    List Saying × Except LaunchError Console :=
  let session : Session := { user := settings.user, hasAnalytics := true }
  match session.start source with
  | (s, .error e) => (newSayings session s, .error (.flow e))
  | (s, .ok ()) =>
    (newSayings session s ++ [screenSaying s],
      .ok { session := s, assistant := settings.assist.map host.assistant })

/-- Start a console with settings at a source. -/
def launchAt (host : Host) (settings : Settings) (place : SourcePlace) : Launch :=
  let inner := sourceOf host place
  let file := if settings.cachePath.isSome then CacheFile.writable else CacheFile.none
  let disk := settings.cachePath.bind host.file
  let ((_, disk'), fetched) := CachedSource.fetch { file } disk inner.fetch
  let (said, result) := enter host settings { inner with fetch := fetched }
  { said := banner settings ++ said
    written := match settings.cachePath, disk' with
      | some path, some text => if inner.fetch.isOk then some (path, text) else none
      | _, _ => none
    result }

/-- Start a console on a host. -/
def launch (host : Host) : Launch :=
  match Settings.ofLookup host.setting with
  | .error cause => { result := .error (.settings cause) }
  | .ok settings =>
    match settings.source with
    | none => { result := .error .noSource }
    | some place => launchAt host settings place

end Console

end Onboarding
