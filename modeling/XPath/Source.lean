/-!
Items that are made when they are asked for. A source is started in a state and then asked for one item
after the other, each time in the state that there is by then. An item can be a failure, and a source can
go on after one.
-/
namespace XPath

/-- What a source answers when it is asked: that there is no more, or an item and how to go on. -/
inductive Pull (σ ε α : Type) where
  | done (s : σ)
  | item (r : Except ε α) (s : σ) (rest : σ → Pull σ ε α)

/-- Items that have not been asked for. -/
abbrev Source (σ ε α : Type) := σ → Pull σ ε α

/-- A step that can fail and change the state. -/
abbrev Action (σ ε α : Type) := ExceptT ε (StateM σ) α

namespace Action

variable {σ ε α β : Type}

def of (f : σ → Except ε α × σ) : Action σ ε α := f

def perform (a : Action σ ε α) (s : σ) : Except ε α × σ := a s

/-- Changes the failure, if there is one. -/
def mapError (g : ε → ε) (a : Action σ ε α) : Action σ ε α :=
  of fun s => match a.perform s with
    | (.error e, s) => (.error (g e), s)
    | r => r

end Action

namespace Pull

variable {σ ε α β : Type}

def append (p : Pull σ ε α) (second : Source σ ε α) : Pull σ ε α :=
  match p with
  | done s => second s
  | item r s rest => item r s fun s => append (rest s) second

def mapError (g : ε → ε) : Pull σ ε α → Pull σ ε α
  | done s => done s
  | item r s rest => item (r.mapError g) s fun s => mapError g (rest s)

/-- Does something with every item. -/
def mapM (f : α → Action σ ε β) : Pull σ ε α → Pull σ ε β
  | done s => done s
  | item (.error e) s rest => item (.error e) s fun s => mapM f (rest s)
  | item (.ok a) s rest =>
    let (r, s) := (f a).perform s
    item r s fun s => mapM f (rest s)

/-- The items that pass the test, which is given their number from `n` on. Failures are numbered too; a
test that fails takes the place of the item. -/
def filterM (f : Nat → α → Action σ ε Bool) (n : Nat) : Pull σ ε α → Pull σ ε α
  | done s => done s
  | item (.error e) s rest => item (.error e) s fun s => filterM f (n + 1) (rest s)
  | item (.ok a) s rest =>
    match (f n a).perform s with
    | (.ok true, s) => item (.ok a) s fun s => filterM f (n + 1) (rest s)
    | (.ok false, s) => filterM f (n + 1) (rest s)
    | (.error e, s) => item (.error e) s fun s => filterM f (n + 1) (rest s)

/-- The items of a source for every item, one after the other, given its number from `n` on. Failures
are numbered and handed on. -/
def bind (f : Nat → α → Source σ ε β) (n : Nat) : Pull σ ε α → Pull σ ε β
  | done s => done s
  | item (.error e) s rest => item (.error e) s fun s => bind f (n + 1) (rest s)
  | item (.ok a) s rest =>
    match f n a s with
    | done s => bind f (n + 1) (rest s)
    | item r s rest' => item r s fun s => (rest' s).append fun s => bind f (n + 1) (rest s)

/-- Asks for `n` items, failures too, and throws them away. -/
def drop : Nat → Pull σ ε α → Pull σ ε α
  | 0, p => p
  | _ + 1, done s => done s
  | n + 1, item _ s rest => drop n (rest s)

/-- Goes through the items until the step is done or something fails. -/
def forIn (b : β) (f : β → α → Action σ ε (ForInStep β)) : Pull σ ε α → Except ε β × σ
  | done s => (.ok b, s)
  | item (.error e) s _ => (.error e, s)
  | item (.ok a) s rest =>
    match (f b a).perform s with
    | (.ok (.yield b), s) => forIn b f (rest s)
    | (.ok (.done b), s) => (.ok b, s)
    | (.error e, s) => (.error e, s)

/-- All items after those already met, which are given in reverse. The first failure ends it. -/
def collect (met : List α) : Pull σ ε α → Except ε (List α) × σ
  | done s => (.ok met.reverse, s)
  | item (.error e) s _ => (.error e, s)
  | item (.ok a) s rest => collect (a :: met) (rest s)

/-- The first item; no more are asked for. -/
def head? : Pull σ ε α → Except ε (Option α) × σ
  | done s => (.ok none, s)
  | item (.error e) s _ => (.error e, s)
  | item (.ok a) s _ => (.ok (some a), s)

/-- The only item; `many` if there is a second one. -/
def only? (many : ε) : Pull σ ε α → Except ε (Option α) × σ
  | done s => (.ok none, s)
  | item (.error e) s _ => (.error e, s)
  | item (.ok a) s rest => match rest s with
    | done s => (.ok (some a), s)
    | item (.error e) s _ => (.error e, s)
    | item (.ok _) s _ => (.error many, s)

end Pull

namespace Source

variable {σ ε α β : Type}

def empty : Source σ ε α := .done

def fail (e : ε) : Source σ ε α := fun s => .item (.error e) s .done

def ofList : List α → Source σ ε α
  | [] => .done
  | a :: as => fun s => .item (.ok a) s (ofList as)

def ofOption (a : Option α) : Source σ ε α := ofList a.toList

/-- Takes a step, then goes on with what it gives. A step that fails is the only item. -/
def after (a : Action σ ε (Source σ ε α)) : Source σ ε α := fun s =>
  match a.perform s with
  | (.ok src, s) => src s
  | (.error e, s) => .item (.error e) s .done

def append (first second : Source σ ε α) : Source σ ε α := fun s => (first s).append second

def concat : List (Source σ ε α) → Source σ ε α
  | [] => empty
  | src :: srcs => src.append (concat srcs)

def mapError (g : ε → ε) (src : Source σ ε α) : Source σ ε α := fun s => (src s).mapError g

def mapM (f : α → Action σ ε β) (src : Source σ ε α) : Source σ ε β := fun s => (src s).mapM f

/-- Items are numbered from one. -/
def filterM (f : Nat → α → Action σ ε Bool) (src : Source σ ε α) : Source σ ε α :=
  fun s => (src s).filterM f 1

/-- Items are numbered from one. -/
def bind (f : Nat → α → Source σ ε β) (src : Source σ ε α) : Source σ ε β := fun s => (src s).bind f 1

def drop (n : Nat) (src : Source σ ε α) : Source σ ε α := fun s => (src s).drop n

/-- The first `n` items. No more are asked for. -/
def take : Nat → Source σ ε α → Source σ ε α
  | 0, _ => empty
  | n + 1, src => fun s => match src s with
    | .done s => .done s
    | .item r s rest => .item r s (take n rest)

/-- The item after the first `n`; failures among those are passed over. -/
def get? (n : Nat) (src : Source σ ε α) : Action σ ε (Option α) := .of fun s => ((src s).drop n).head?

def forIn (src : Source σ ε α) (b : β) (f : β → α → Action σ ε (ForInStep β)) : Action σ ε β :=
  .of fun s => (src s).forIn b f

def toList (src : Source σ ε α) : Action σ ε (List α) := .of fun s => (src s).collect []

def head? (src : Source σ ε α) : Action σ ε (Option α) := .of fun s => (src s).head?

def only? (many : ε) (src : Source σ ε α) : Action σ ε (Option α) := .of fun s => (src s).only? many

end Source
end XPath
