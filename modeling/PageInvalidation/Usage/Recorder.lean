import PageInvalidation.Usage.Page

/-! # Recording usages

A recorder collects the usages of one page while it is rendered, each once. -/

namespace PageInvalidation

/-- The usages seen so far. -/
structure UsageRecorder where
  usages : UsageSet

namespace UsageRecorder

/-- Before the first usage. -/
def empty : UsageRecorder := ⟨Keyed.empty⟩

/-- Records a usage. -/
def add (r : UsageRecorder) (u : Usage) : UsageRecorder := ⟨r.usages.insert u⟩

/-- Records an entry. -/
def addEntry (r : UsageRecorder) : Entry → Except Usage.Error UsageRecorder
  | .usage u => .ok (r.add u)
  | .foreign v => .error (.noIdentity v)

/-- Records the use of an aspect with an optional modifier. -/
def addAspect (r : UsageRecorder) (a : Aspect) (e : EntityId) (modifier : Option Text.CodeText) :
    Except Usage.Error UsageRecorder :=
  (Usage.ofParts (some e) (some a) modifier).map r.add

/-- The usages in order. -/
def toList (r : UsageRecorder) : List Usage := r.usages.toList

/-- The record of a page with the usages seen. -/
def toPage (r : UsageRecorder) (pageId : Value) : Except Usage.Error PageUsages :=
  PageUsages.ofValues pageId (r.toList.map .usage)

end UsageRecorder

end PageInvalidation
