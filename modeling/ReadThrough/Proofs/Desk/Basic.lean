import ReadThrough.Proofs.Service.Loading
import ReadThrough.Query.Engine
/-!
# Desks

A desk is a process that answers requests. It has a table of rows, which it observes, a table of
categories, and a source of randomness; and it has a service, by way of which it loads rows by key. It
does one thing after another (`Deed`): it answers a request, a row changes, something is taken out of the
cache, or time goes by. Whatever is left for its service to do may be done at any time.

What a desk answers depends on the order in which its service works, at least at first sight. An engine
may also be asked for what it would answer from the stock alone, with no cache, no batches and no time
(`Engine.perform`).
-/

namespace ReadThrough

variable {ρ α : Type}

/-- What requests are answered from. -/
structure Stock (ρ : Type) where
  rows : Table ρ Unit
  categories : Table ρ Unit
  random : RandomSource

/-- A process that answers requests, and observes its tables. -/
structure Desk (ρ : Type) where
  stock : Stock ρ
  service : Service ρ

/-- What happens at a desk. -/
inductive Deed (ρ : Type) where
  /-- A request is answered. -/
  | resolve (r : Request)
  /-- A row changes. -/
  | change (w : Write ρ)
  /-- A category changes. -/
  | recategorize (w : Write ρ)
  /-- One entry, or all entries of a segment, are taken out of the cache. -/
  | invalidate (segment : String) (k : Option Key)
  /-- All entries are taken out of the cache. -/
  | clearAll
  /-- All expired entries are taken out of the cache. -/
  | purge
  /-- Time goes by. -/
  | pass (ms : Nat)

/-- The deed without the fields that a request names. -/
def Deed.plain : Deed ρ → Deed ρ
  | .resolve r => .resolve { r with fields := none }
  | deed => deed

/-- What comes of a request. -/
abbrev Resolved (ρ : Type) := Except QueryError (Resolution ρ)

/-! ## Answering from the stock -/

namespace Engine

variable (g : Engine ρ)

/-- The stock at the start. The desk observes its tables. -/
def stock (rows categories : List ρ) (random : RandomSource) : Stock ρ where
  rows := (Table.ofRows g.entity rows).attach ()
  categories := (g.resolver.elim {} fun r => Table.ofRows r.entity categories).attach ()
  random := random

/-- The rows of a kind, and what is known of them. -/
def table? (s : Stock ρ) (kind : String) : Option (Entity ρ × Table ρ Unit) :=
  if kind = g.entity.kind then some (g.entity, s.rows)
  else (g.resolver.filter (·.entity.kind = kind)).map fun r => (r.entity, s.categories)

/-- What is answered to a query from the stock alone. -/
def answer : (q : Ask ρ) → Stock ρ → q.Answer × Stock ρ
  | .count f, s => (s.rows.count g.entity f, s)
  | .findKeys kind o, s =>
    ((g.table? s kind).elim (.error .notFound) fun (e, t) => t.findKeys e o, s)
  | .findMany o, s => (s.rows.findMany g.entity o, s)
  | .load keys, s => (keys.map fun k => .ok (s.rows.get? k), s)
  | .unit, s => (s.random.unit.1, { s with random := s.random.unit.2 })
  | .shuffle keys, s =>
    ((s.random.shuffle keys).1, { s with random := (s.random.shuffle keys).2 })
  | .epoch, s => (default, s)
  | .prime _ _, s => ((), s)

/-- The stock after a change to the rows, and the notices of it. -/
def change (s : Stock ρ) (w : Write ρ) : Stock ρ × List (Notice Unit) :=
  (s.rows.write? g.entity w).elim (s, []) fun (rows, news) => ({ s with rows }, news)

/-- The stock after a change to the categories, and the notices of it. -/
def recategorize (s : Stock ρ) (w : Write ρ) : Stock ρ × List (Notice Unit) :=
  (g.resolver.bind fun r => s.categories.write? r.entity w).elim (s, [])
    fun (categories, news) => ({ s with categories }, news)

/-- What comes of a deed, and the stock after it, if there is nothing but the stock. No heed is paid to
the fields of a request. -/
def perform (s : Stock ρ) : Deed ρ → List (Resolved ρ) × Stock ρ
  | .resolve r =>
    let (x, s) := (g.resolve { r with fields := none }).run.run g.answer s
    ([x], s)
  | .change w => ([], (g.change s w).1)
  | .recategorize w => ([], (g.recategorize s w).1)
  | .invalidate _ _ | .clearAll | .purge | .pass _ => ([], s)

/-- What comes of deeds, one after another. -/
def performAll (s : Stock ρ) : List (Deed ρ) → List (Resolved ρ) × Stock ρ
  | [] => ([], s)
  | deed :: deeds =>
    let (xs, s) := g.perform s deed
    let (ys, s) := performAll s deeds
    (xs ++ ys, s)

end Engine

/-! ## Answering at a desk -/

namespace Desk

/-- How a desk is set up. -/
structure Setup (ρ : Type) where
  engine : Engine ρ
  config : CacheConfig := {}

namespace Setup

variable (u : Setup ρ) (d : Desk ρ)

/-- How the service of a desk is set up. -/
def service : Service.Setup ρ := { entity := u.engine.entity, config := u.config }

/-- A desk at the start. -/
def fresh (rows categories : List ρ) (random : RandomSource) : Desk ρ :=
  { stock := u.engine.stock rows categories random, service := u.service.fresh }

/-- The desk with another cache. -/
def withCache (cache : RowCache ρ) : Desk ρ := { d with service := { d.service with cache } }

/-- The desk takes out of its cache what notices are about. -/
def tell (d : Desk ρ) (news : List (Notice Unit)) : Desk ρ :=
  withCache d (news.foldl (fun c n => c.invalidate n.segment (some n.key)) d.service.cache)

/-- The service of a desk works for a while, and no load begins. -/
inductive Idles : Desk ρ → Prop where
  | work {told : List (Nat × Loaded ρ)} {service : Service ρ}
      (stretch : Service.Stretch u.service d.stock.rows d.service [] told service) :
      Idles { d with service }

/-- How a desk answers what a query asks for. Rows under keys come by way of its service, and rows that
have been found in another way go into its cache, if that is on; everything else is answered from the
stock. -/
inductive Answers : (q : Ask ρ) → q.Answer → Desk ρ → Prop where
  | stock (q : Ask ρ) (plain : ∀ keys, q ≠ .load keys) (known : q ≠ .epoch)
      (given : ∀ rows epoch, q ≠ .prime rows epoch) :
      Answers q (u.engine.answer q d.stock).1 { d with stock := (u.engine.answer q d.stock).2 }
  | load {keys : List Key} {answers : List (Loaded ρ)} {service : Service ρ}
      (loads : Service.Loads u.service d.stock.rows d.service keys answers service) :
      Answers (.load keys) answers { d with service }
  | epoch : Answers .epoch (d.service.cache.epoch u.engine.entity.segment) d
  | prime (rows : List ρ) (epoch : Epoch) :
      Answers (.prime rows epoch) () (withCache d
        (if u.config.enabled then
          d.service.cache.keepAllIfCurrent d.service.clock u.engine.entity rows epoch
        else d.service.cache))

/-- A desk carries out a plan. Before every answer its service may work for a while. -/
inductive Carries (u : Setup ρ) : Plan ρ α → Desk ρ → α → Desk ρ → Prop where
  | done {a : α} {d : Desk ρ} : Carries u (.done a) d a d
  | ask {q : Ask ρ} {next : q.Answer → Plan ρ α} {d d₁ d₂ d₃ : Desk ρ} {r : q.Answer} {a : α}
      (idle : u.Idles d d₁) (answer : u.Answers d₁ q r d₂) (rest : Carries u (next r) d₂ a d₃) :
      Carries u (.ask q next) d a d₃

/-- The desk after a deed other than answering a request. -/
def after : Deed ρ → Desk ρ
  | .resolve _ => d
  | .change w =>
    let (stock, news) := u.engine.change d.stock w
    tell { d with stock } news
  | .recategorize w =>
    let (stock, news) := u.engine.recategorize d.stock w
    tell { d with stock } news
  | .invalidate segment k => withCache d (d.service.cache.invalidate segment k)
  | .clearAll => withCache d d.service.cache.clearAll
  | .purge => withCache d (d.service.cache.purge d.service.clock)
  | .pass ms => { d with service := { d.service with clock := d.service.clock + ms } }

/-- A desk does something, and what comes of it. -/
inductive Does : Deed ρ → List (Resolved ρ) → Desk ρ → Prop where
  | resolve {r : Request} {x : Resolved ρ} {d' : Desk ρ}
      (carries : u.Carries (u.engine.resolve r).run d x d') : Does (.resolve r) [x] d'
  | other (deed : Deed ρ) (plain : ∀ r, deed ≠ .resolve r) : Does deed [] (u.after d deed)

/-- A desk does one thing after another. Between two of them its service may work for a while. -/
inductive Performs (u : Setup ρ) : Desk ρ → List (Deed ρ) → List (Resolved ρ) → Desk ρ → Prop where
  | rest {d : Desk ρ} : Performs u d [] [] d
  | deed {d d₁ d₂ d₃ : Desk ρ} {deed : Deed ρ} {deeds : List (Deed ρ)} {xs ys : List (Resolved ρ)}
      (idle : u.Idles d d₁) (does : u.Does d₁ deed xs d₂) (rest : Performs u d₂ deeds ys d₃) :
      Performs u d (deed :: deeds) (xs ++ ys) d₃

end Setup

end Desk

end ReadThrough
