/-
**Outcomes of requests and their counts.**

A request that returns a handle was answered in one of four ways; each answer is counted, and so is
each construction that failed.

Main definitions:

* `Outcome`, `Outcome.text` — the four ways;
* `Stats`, `Stats.count`, `Stats.countFailure` — the counters;
* `Stats.resolves`, `Stats.text` — the number of answers, and the summary line;
* `Duration`, `Duration.milliseconds` — the time a request took.

Main results:

* `Stats.resolves_count` — each counted answer adds one;
* `Stats.resolves_countFailure` — failures are no answers.
-/

set_option autoImplicit false

namespace SchemaGraph.Registry

/-! ### Outcomes -/

/-- How a request was answered. -/
inductive Outcome where
  /-- the instance was there already -/
  | hit
  /-- the instance was constructed by this request -/
  | miss
  /-- the type was under construction, and a forward reference was given -/
  | deferred
  /-- another thread was constructing the type, and this request waited for it -/
  | waited
deriving DecidableEq, Repr, Inhabited

/-- The name of an outcome. -/
def Outcome.text : Outcome → String
  | .hit => "cache hit"
  | .miss => "cache miss"
  | .deferred => "deferred"
  | .waited => "waited"

/-! ### Counters -/

/-- The counters of a registry. -/
structure Stats where
  hits : Nat := 0
  misses : Nat := 0
  deferred : Nat := 0
  waited : Nat := 0
  failures : Nat := 0
deriving DecidableEq, Repr, Inhabited

namespace Stats

/-- The counters before any request. -/
def zero : Stats := {}

/-- The number of requests that returned a handle. -/
def resolves (s : Stats) : Nat := s.hits + s.misses + s.deferred + s.waited

/-- Counts an answer. -/
def count (s : Stats) : Outcome → Stats
  | .hit => { s with hits := s.hits + 1 }
  | .miss => { s with misses := s.misses + 1 }
  | .deferred => { s with deferred := s.deferred + 1 }
  | .waited => { s with waited := s.waited + 1 }

/-- Counts a construction that failed. -/
def countFailure (s : Stats) : Stats := { s with failures := s.failures + 1 }

@[simp] theorem resolves_zero : zero.resolves = 0 := rfl

theorem resolves_count (s : Stats) (o : Outcome) : (s.count o).resolves = s.resolves + 1 := by
  cases o <;> simp only [count, resolves] <;> omega

@[simp] theorem resolves_countFailure (s : Stats) : s.countFailure.resolves = s.resolves := rfl

@[simp] theorem failures_count (s : Stats) (o : Outcome) : (s.count o).failures = s.failures := by
  cases o <;> rfl

/-- The summary line. -/
def text (s : Stats) : String :=
  toString s.resolves ++ " resolves: " ++ toString s.hits ++ " hits, " ++ toString s.misses
    ++ " misses, " ++ toString s.deferred ++ " deferred, " ++ toString s.waited ++ " waited, "
    ++ toString s.failures ++ " failures"

end Stats

/-! ### Durations -/

/-- A length of time. -/
structure Duration where
  seconds : UInt64
  nanos : UInt32
deriving DecidableEq, Repr, Inhabited

/-- The length in milliseconds: the seconds as a float, times a thousand. -/
def Duration.milliseconds (d : Duration) : Float :=
  (d.seconds.toFloat + d.nanos.toFloat / 1000000000.0) * 1000.0

end SchemaGraph.Registry
