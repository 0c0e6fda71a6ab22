import ReadThrough.Proofs.Invalidation.Remote
import ReadThrough.Sql.Channel
/-!
# What is lost on a channel

A process that listens on a channel of a database hears one result after another. After some of them it may
have missed notifications (`Received.gap`): when the connection was lost, and when receiving failed, since
the connection may have been made again without a report. A lost connection that is reported empties the
cache at once. A failure does nothing to it: whatever has been kept before is still there afterwards, unless
a notification is about it (`survives_iff`, `kept_through_gap`).
-/

namespace ReadThrough

namespace Sql

variable {ν : Type}

namespace Received

/-- Whether notifications may have been missed before a result. -/
def gap : Received → Bool
  | .notification _ => false
  | .lost | .failed _ => true

/-- The message of a notification, if it is one. -/
def message? : Received → Option Message
  | .notification payload => Message.decode? (String.ofList (Channel.untilZero payload))
  | .lost | .failed _ => none

/-- Whether a process lets go of what is under a key of a segment when it hears a result. -/
def removes (self : Uuid) (segment : String) (k : Key) : Received → Bool
  | .lost => true
  | r => r.message?.any fun m => m.origin ≠ some self ∧ m.concerns segment k

end Received

/-- The cache of a process that has heard results one after another. -/
def hearAll (self : Uuid) (rs : List Received) (c : Cache ν) : Cache ν :=
  rs.foldl (fun c r => (c.hear self r.item).2) c

/-! ## Entries -/

/-- What hearing a result does to the entry under a key. -/
theorem find?_hear (self : Uuid) (r : Received) (c : Cache ν) (segment : String) (k : Key) :
    (c.hear self r.item).2.find? segment k =
      if r.removes self segment k then none else c.find? segment k := by
  cases r with
  | lost => exact Cache.find?_clearAll c segment k
  | failed e => rfl
  | notification payload =>
    change (c.applyRemote self (String.ofList (Channel.untilZero payload))).2.find? segment k =
      if (Message.decode? (String.ofList (Channel.untilZero payload))).any
        fun m => m.origin ≠ some self ∧ m.concerns segment k then none else c.find? segment k
    rw [Cache.applyRemote]
    cases Message.decode? (String.ofList (Channel.untilZero payload)) with
    | none => rfl
    | some m =>
      by_cases hself : m.origin = some self
      · simp [hself]
      · simp [hself, Cache.find?_invalidate]

theorem find?_hearAll (self : Uuid) (rs : List Received) (c : Cache ν) (segment : String) (k : Key) :
    (hearAll self rs c).find? segment k =
      if rs.any (·.removes self segment k) then none else c.find? segment k :=
  Cache.find?_foldl (fun c r => find?_hear self r c segment k) rs c

theorem Received.removes_eq_false_iff {self : Uuid} {r : Received} {segment : String} {k : Key} :
    r.removes self segment k = false ↔ r ≠ .lost ∧ ∀ m, r.message? = some m →
      m.origin ≠ some self → m.concerns segment k = false := by
  cases r with
  | lost => exact ⟨nofun, fun h => absurd rfl h.1⟩
  | failed e => exact ⟨fun _ => ⟨nofun, nofun⟩, fun _ => rfl⟩
  | notification payload =>
    rw [removes]
    · cases (notification payload).message? with
      | none => simp
      | some m => simp
    · nofun

/-- What has been kept is still there exactly if none of the results is a lost connection, and no message of
another process is about it. So all is forgotten at a gap that is reported as a lost connection, whatever
comes before and after it, and nothing at a gap that is reported as a failure. -/
theorem survives_iff (self : Uuid) (rs : List Received) (c : Cache ν) (segment : String) (k : Key)
    (x : Entry ν) :
    (hearAll self rs c).find? segment k = some x ↔
      c.find? segment k = some x ∧ .lost ∉ rs ∧
        ∀ r ∈ rs, ∀ m, r.message? = some m → m.origin ≠ some self → m.concerns segment k = false := by
  have hany : rs.any (·.removes self segment k) = false ↔ .lost ∉ rs ∧
      ∀ r ∈ rs, ∀ m, r.message? = some m → m.origin ≠ some self → m.concerns segment k = false := by
    simp only [List.any_eq_false, Bool.not_eq_true, Received.removes_eq_false_iff]
    constructor
    · exact fun h => ⟨fun hlost => (h _ hlost).1 rfl, fun r hr => (h r hr).2⟩
    · exact fun h r hr => ⟨fun hlost => h.1 (hlost ▸ hr), h.2 r hr⟩
  rw [find?_hearAll, ← hany]
  cases rs.any (·.removes self segment k) <;> simp

/-- A cache that holds a row, or a number in its place. -/
def warm : Cache Nat := Cache.set { ttl := 30000 } 0 "Article" (.int 1) 7

/-- A cache may hold what it held before a gap when a later notification is applied: it does so after
receiving has failed. -/
theorem kept_through_gap : ¬ ∀ (self : Uuid) (c : Cache Nat) (before between : List Received)
    (r : Received) (payload : String), r.gap = true → ∀ segment k,
      (hearAll self (before ++ r :: between ++ [.notification payload]) c).find? segment k = none := by
  intro h
  have hkept : (hearAll ⟨0⟩ [.failed .poolTimedOut,
      .notification "\x7b\"action\":\"clear\",\"segment\":\"Tag\",\"id\":\"a\"\x7d"] warm).find?
        "Article" (.int 1) = some { value := 7, expires := 30000 } := by
    decide +kernel
  have hgone := h ⟨0⟩ warm [] [] (.failed .poolTimedOut)
    "\x7b\"action\":\"clear\",\"segment\":\"Tag\",\"id\":\"a\"\x7d" rfl "Article" (.int 1)
  exact nomatch hkept.symm.trans hgone

end Sql

end ReadThrough
