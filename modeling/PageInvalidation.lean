import PageInvalidation.Dispatch.App
import PageInvalidation.Instant.IsoText
import PageInvalidation.Proofs.Affected.Failures
import PageInvalidation.Proofs.Affected.FineUse
import PageInvalidation.Proofs.Change.Other
import PageInvalidation.Proofs.Database.Agreement
import PageInvalidation.Proofs.Database.Requests
import PageInvalidation.Proofs.Dispatch.Event
import PageInvalidation.Proofs.Dispatch.Records
import PageInvalidation.Proofs.Dispatch.Run
import PageInvalidation.Proofs.Title.Canonical
import PageInvalidation.Proofs.Usage.Listing
import PageInvalidation.Proofs.Wire.Encoding
import PageInvalidation.Usage.Recorder
import PageInvalidation.Proofs.Usage.Entities
import PageInvalidation.Proofs.Usage.Recording
import PageInvalidation.Proofs.Usage.Configuration
import PageInvalidation.Proofs.Binary64.Integers
import PageInvalidation.Proofs.Change.Regular
import PageInvalidation.Proofs.Dispatch.Counters
import PageInvalidation.Proofs.Number
import PageInvalidation.Proofs.Dispatch.Measures
import PageInvalidation.Proofs.Wire.Times
import PageInvalidation.Proofs.Dispatch.Resolution
import PageInvalidation.Proofs.Dispatch.Replay
import PageInvalidation.Proofs.Affected.InPlace
