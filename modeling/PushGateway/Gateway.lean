import PushGateway.Exposition.Payload
import PushGateway.Exposition.Render
import PushGateway.Http.Message
import PushGateway.Http.Target
import PushGateway.Merge
import PushGateway.Store.Queue

/-!
The gateway: pushes and deletes of groups, and the scrape of all of them, over HTTP. Faults of the
grouping key and of the payload are found before the store is asked.
-/

namespace PushGateway.Gateway

open Http (Response Route)

def bodyLimit : Nat := 2097152

def scrapeContentType : String := "text/plain; version=0.0.4; charset=utf-8"

def success (fields : List (String × Json)) : Response :=
  .json 202 (.record [("success", .bool true), ("data", .record fields)])

def failure (status : Nat) (message : String) : Response :=
  .json status (.record [("success", .bool false), ("error", .str message)])

def storeFailure (e : StoreError) : Response :=
  let status := match e with
    | .invalid _ => 400
    | .timeout | .shutDown => 503
    | .persistence _ => 500
  failure status e.message

def keyOf (job : String) : Option String → Except KeyError GroupingKey
  | none => GroupingKey.ofJob job
  | some inst => GroupingKey.ofJobInstance job inst

def groupField (key : GroupingKey) : String × Json := ("group", .str key.text)

def push (s : Store) (now : Moment) (job : String) (inst : Option String) (body : String) :
    Store × Response :=
  match keyOf job inst with
  | .error e => (s, failure 400 e.message)
  | .ok key => match Exposition.parse body with
    | .error e => (s, failure 400 e.message)
    | .ok families => match s.call now true (.push key families) with
      | (s, .ok _) => (s, success [groupField key])
      | (s, .error e) => (s, storeFailure e)

def existedField : Store.Answer → Json
  | .deleted existed => .bool existed
  | _ => .bool false

def delete (s : Store) (now : Moment) (job : String) (inst : Option String) : Store × Response :=
  match keyOf job inst with
  | .error e => (s, failure 400 e.message)
  | .ok key => match s.call now true (.delete key) with
    | (s, .ok answer) => (s, success [groupField key, ("existed", existedField answer)])
    | (s, .error e) => (s, storeFailure e)

def exposition : Store.Answer → String
  | .groups groups => Exposition.render (merge groups).families
  | _ => ""

def scrape (s : Store) (now : Moment) : Store × Response :=
  match s.call now true .snapshot with
  | (s, .ok answer) => (s, ⟨200, some scrapeContentType, none, exposition answer⟩)
  | (s, .error e) => (s, storeFailure e)

def badSegment (name : String) : Response :=
  .plain 400 ("Invalid URL: Invalid UTF-8 in `" ++ name ++ "`")

/-- The job and the instance of a route; the first that is no text decides. -/
def groupNames (job : List Char) (inst : Option (List Char)) :
    Except Response (String × Option String) := do
  let job ← (Http.segment "job" job).mapError badSegment
  match inst with
  | none => return (job, none)
  | some inst => return (job, some (← (Http.segment "instance" inst).mapError badSegment))

def bodyText (body : List UInt8) : Except Response String :=
  if bodyLimit < body.length then
    .error (.plain 413 "Failed to buffer the request body: length limit exceeded")
  else (Text.ofUtf8 body).mapError fun e =>
    .plain 400 ("Request body didn't contain valid UTF-8: " ++ e.message)

def respondPush (s : Store) (now : Moment) (job : List Char) (inst : Option (List Char))
    (body : List UInt8) : Store × Response :=
  match groupNames job inst with
  | .error r => (s, r)
  | .ok (job, inst) => match bodyText body with
    | .error r => (s, r)
    | .ok body => push s now job inst body

def respondDelete (s : Store) (now : Moment) (job : List Char) (inst : Option (List Char)) :
    Store × Response :=
  match groupNames job inst with
  | .error r => (s, r)
  | .ok (job, inst) => delete s now job inst

def respond (s : Store) (now : Moment) (r : Http.Request) : Store × Response :=
  match Route.ofTarget? r.uri with
  | none => (s, .notFound)
  | some .metrics =>
    if r.method = "GET" then scrape s now
    else if r.method = "HEAD" then
      let (s, response) := scrape s now
      (s, response.withoutBody)
    else (s, .methodNotAllowed "GET,HEAD")
  | some (.group job inst) =>
    if r.method = "PUT" || r.method = "POST" then respondPush s now job inst r.body
    else if r.method = "DELETE" then respondDelete s now job inst
    else (s, .methodNotAllowed "PUT,POST,DELETE")

end PushGateway.Gateway
