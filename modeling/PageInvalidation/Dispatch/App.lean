import PageInvalidation.Database.Titles
import PageInvalidation.Database.Usages
import PageInvalidation.Dispatch.Handler
import PageInvalidation.Dispatch.Publisher

/-! # The dispatcher

Consumes changes in batches and publishes an event for each that affects pages. A change that cannot be
handled is published as a dead letter and not tried again. A batch is committed once everything it led to
is delivered; if something is not, the batch stays uncommitted and the run ends. -/

namespace PageInvalidation.Dispatch

/-- The dispatcher: its settings, how affected pages are found, and its stack. -/
structure App where
  settings : DispatchSettings
  finder : Finder
  sources : Sources World
  /-- How many containers a body may nest to be looked into for its identifier. -/
  bodyDepth : Nat

namespace App

/-- Who writes the notes of this module. -/
def source : String := "change-dispatch"

/-! ### Opening -/

/-- The settings of the consumer. Nothing is committed without being asked for. -/
def consumerSettings (s : DispatchSettings) : Value :=
  .obj [("bootstrap.servers", .str s.servers), ("group.id", .str s.group),
    ("auto.offset.reset", .str s.offsetReset), ("enable.auto.commit", .bool false)]

/-- The settings of the producer. Records are not lost or repeated on their way. -/
def producerSettings (s : DispatchSettings) : Value :=
  .obj [("bootstrap.servers", .str s.servers), ("enable.idempotence", .bool true),
    ("acks", .str "all")]

/-- Opens the connections to the broker and the first window. -/
def start (app : App) : Act World Unit := do
  World.call (.openConsumer (consumerSettings app.settings))
  World.call (.subscribe [app.settings.changesTopic])
  World.call (.openProducer (producerSettings app.settings))
  let now ← World.time
  Act.update fun w =>
    { w with
      measures := .opened w.measures.meters (.binary app.settings.metricsInterval) now
      running := true }

/-! ### One message -/

/-- The change that a message carries. -/
def changeOf (m : Message) : Except Fault Wire.ChangeMessage := do
  let s ← (Text.Utf8.decode m.handledBytes).mapError fun e => .dispatch (.undecodable e)
  (Wire.readMessage Wire.ChangeMessage.ofValue s).mapError .invalid

/-- Takes a measure. -/
def measure {α : Type} (f : Measures → Measures × Except Fault α) : Act World α := do
  let result ← Act.observe fun w => let (measures, result) := f w.measures; (result, { w with measures })
  Act.ofExcept id result

/-- The time between two readings of the stopwatch, in milliseconds. -/
def latencyBetween (started ended : Number) : Except NumberError Number := do
  (← ended.sub started).mul (.whole 1000)

/-- The milliseconds that a reading of the clock stands for. -/
def millisOf (now : Number) : Except NumberError Int := do (← now.mul (.whole 1000)).toInteger

/-- Counts a failed change. -/
def recordFailed : Act World Unit := measure (·.failed)

/-- Publishes an event under its entity, if both can be written. -/
def publishEvent (app : App) (event : Wire.EventMessage) : Act World Unit := do
  let key ← Act.ofExcept (.dispatch ∘ .unwritable) (Text.Utf8.writable event.entity)
  let _ ← Act.ofExcept .unwritten (Wire.write event.toValue)
  Publisher.publish ⟨app.settings.pagesTopic, String.ofList key, .event event⟩

/-- Handles the change of a message and publishes its event, if there is one. -/
def processMessage (app : App) (m : Message) : Act World Unit := do
  let started ← World.stopwatchTime
  let change ← Act.ofExcept id (changeOf m)
  let now ← Act.observe fun w => (w.now, w)
  let event ← Handler.handle app.finder app.sources change now
  let latency ← Act.ofExcept .number (latencyBetween started (← World.stopwatchTime))
  match event with
  | none => measure (·.skipped latency)
  | some event =>
    publishEvent app event
    measure (·.dispatched latency event.pages.length)

/-- The dead letter for a message. -/
def deadLetter (m : Message) (fault : Fault) (failedAt : Int) (id : List Char) : DeadLetter where
  failedAt := failedAt
  topic := m.topic
  partition := m.partition
  offset := m.offset
  changeId := String.ofList id
  fault := fault
  rawValue := String.ofList (Text.Utf8.decodeLossy m.bytes)

/-- Publishes a message that cannot be handled as a dead letter. -/
def publishDeadLetter (app : App) (m : Message) (fault : Fault) : Act World Unit := do
  let id ← Act.ofExcept .dispatch (DeadLetter.idOf app.bodyDepth m.handledBytes)
  Act.update (Journalled.record ⟨.error, source, DeadLetter.line id m⟩)
  let now ← World.time
  let failedAt ← Act.ofExcept .number (millisOf now)
  let id ← Act.ofExcept (fun u => .dispatch (.unwritable u)) (Text.Utf8.writable id)
  let letter := deadLetter m fault failedAt id
  Publisher.publish ⟨app.settings.deadLetterTopic, letter.changeId, .deadLetter letter⟩
  recordFailed

/-- Handles a message, or publishes it as a dead letter. -/
def dispatchMessage (app : App) (m : Message) : Act World Unit :=
  tryCatch (app.processMessage m) (app.publishDeadLetter m)

/-! ### Batches -/

/-- Handles the messages of a batch and commits it if everything was delivered. -/
def processBatch (app : App) (batch : List Message) : Act World Unit := do
  batch.forM app.dispatchMessage
  let undelivered ← Publisher.flush Publisher.flushTimeout
  if 0 < undelivered then throw (.dispatch (.undelivered undelivered))
  World.call .commit

/-! ### Runs -/

/-- Notes a signal and asks the run to end. -/
def onSignal (signal : Int) : Act World Unit := do
  Act.note .info source (Text.CodeText.ofString ("received signal=" ++ toString signal ++ "; shutting down"))
  Act.update fun w => { w with running := false }

/-- The messages of a delivery, without those that are missing or only reports. -/
def batchOf (messages : List (Option Message)) : List Message :=
  (messages.filterMap id).filter fun m => !m.isReport

/-- Asks for messages. -/
def consume (app : App) : Delivery → Act World (List Message)
  | .messages signal messages => do
    World.call (.consume app.settings.batchSize app.settings.pollTimeout)
    if let some signal := signal then onSignal signal
    return batchOf messages
  | .failure text => do
    World.call (.consume app.settings.batchSize app.settings.pollTimeout)
    throw (.dispatch (.notConsumed text))

/-- Logs the window if its interval has passed. -/
def turnWindow : Act World Unit := do
  let now ← World.time
  let line ← measure (·.turn now)
  if let some line := line then Act.note .info source line

/-- One round of a run: a delivery is consumed and its messages are handled. -/
def round (app : App) (d : Delivery) : Act World Unit := do
  let batch ← app.consume d
  if !batch.isEmpty then app.processBatch batch
  turnWindow

/-- Whether the run goes on. -/
def isRunning : Act World Bool := Act.observe fun w => (w.running, w)

/-- The rounds of a run, as long as it is not asked to end. -/
def rounds (app : App) : List Delivery → Act World Unit
  | [] => do if ← isRunning then app.round .last
  | d :: rest => do
    if ← isRunning then
      app.round d
      app.rounds rest

/-- Closes the connections to the broker. -/
def stop : Act World Unit := do
  World.call .closeConsumer
  Publisher.close
  Act.note .info source "change dispatch stopped"

/-- Consumes deliveries until the run is asked to end or fails; the connections are closed either way. -/
def run (app : App) (deliveries : List Delivery) : Act World Unit := do
  World.call (.handleSignal interrupt)
  World.call (.handleSignal terminate)
  Act.note .info source (Text.CodeText.ofString ("change dispatch started topic=" ++ app.settings.changesTopic))
  let fault ← tryCatch (do app.rounds deliveries; return none) fun fault => return some fault
  stop
  if let some fault := fault then throw fault

/-! ### The dispatcher over a database -/

/-- Sources in a database. -/
def databaseSources : Sources World where
  pagesUsing := Database.Usages.pagesUsing
  pageById := Database.Titles.pageById
  pageByText := Database.Titles.pageByText Title.mainNamespace

/-- The dispatcher over a database, with settings from the environment. -/
def overDatabase (bodyDepth : Nat) (env : Environment) : Act World App := do
  let settings ← Act.ofExcept .number (DispatchSettings.ofEnvironment env)
  World.call (.openPool settings.minConnections settings.maxConnections settings.databaseUrl)
  let app : App := ⟨settings, .ofEnvironment env, databaseSources, bodyDepth⟩
  app.start
  return app

end App

end PageInvalidation.Dispatch
