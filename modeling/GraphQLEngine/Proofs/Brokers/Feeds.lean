import GraphQLEngine.Broker.Network

/-!
# What a listener has yet to read

A listener reads its feed item by item until its stream has finished; what comes behind that is
never read.  Putting one more item on the feed adds it at the end of what is yet to be read, or
leaves a report of a loss ahead of the rest.

    .loss ∈ (hear n kept item).live  ∨  (hear n kept item).live = n.live ++ n.fresh item
-/

namespace GraphQLEngine

def FeedItem.isFinish : FeedItem → Bool
  | .finish => true
  | _ => false

def FeedItem.message? : FeedItem → Option BusMessage
  | .message m => some m
  | _ => none

namespace Feed

/-- The first item, and the feed without it. -/
def next? (f : Feed) : Option (FeedItem × Feed) :=
  match f.behind, f.backlog with
  | true, backlog => some (.loss, ⟨false, backlog⟩)
  | false, item :: backlog => some (item, ⟨false, backlog⟩)
  | false, [] => none

/-- The items ahead of the end of the stream. -/
def live (f : Feed) : List FeedItem := f.items.takeWhile (!·.isFinish)

/-- Whether the end of the stream is in sight. -/
def finishes (f : Feed) : Bool := f.items.any (·.isFinish)

theorem items_next? {f f' : Feed} {item : FeedItem} (h : f.next? = some (item, f')) :
    f.items = item :: f'.items := by
  obtain ⟨behind, backlog⟩ := f
  cases behind with
  | true =>
    cases h
    rfl
  | false =>
    cases backlog with
    | nil => cases h
    | cons first rest =>
      cases h
      rfl

theorem items_of_next?_none {f : Feed} (h : f.next? = none) : f.items = [] := by
  obtain ⟨behind, backlog⟩ := f
  cases behind with
  | true => cases h
  | false =>
    cases backlog with
    | nil => rfl
    | cons => cases h

/-- A new item comes last, unless some are dropped and their loss comes first. -/
theorem items_push (f : Feed) (kept : Nat) (item : FeedItem) :
    (∃ rest, (f.push kept item).items = .loss :: rest) ∨
      (f.push kept item).items = f.items ++ [item] := by
  simp only [push]
  split
  · exact .inl ⟨_, rfl⟩
  · right
    cases behind : f.behind <;> simp [items, behind]

/-- Nothing that comes behind the end of the stream is ever read. -/
theorem takeWhile_append_singleton (items : List FeedItem) (item : FeedItem) :
    (items ++ [item]).takeWhile (!·.isFinish) =
      items.takeWhile (!·.isFinish) ++
        if items.any (·.isFinish) || item.isFinish then [] else [item] := by
  induction items with
  | nil => cases item <;> rfl
  | cons first rest ih =>
    cases end? : first.isFinish with
    | true => simp [end?]
    | false => simpa [end?] using ih

theorem live_push (f : Feed) (kept : Nat) (item : FeedItem) :
    .loss ∈ (f.push kept item).live ∨
      (f.push kept item).live =
        f.live ++ if f.finishes || item.isFinish then [] else [item] := by
  rcases items_push f kept item with ⟨rest, loss⟩ | last
  · left
    rw [live, loss]
    exact List.mem_cons_self
  · right
    rw [live, last]
    exact takeWhile_append_singleton f.items item

end Feed

namespace Node

/-- What the listener of a node will read. -/
def live (n : Node) : List FeedItem := if n.listening then n.feed.live else []

/-- The listener reads nothing that is put on its feed from now on. -/
def deaf (n : Node) : Bool := !n.listening || n.feed.finishes

/-- What an item that is put on the feed adds to what the listener will read. -/
def fresh (n : Node) (item : FeedItem) : List FeedItem :=
  if n.deaf || item.isFinish then [] else [item]

theorem live_hear (n : Node) (kept : Nat) (item : FeedItem) :
    .loss ∈ (n.hear kept item).live ∨ (n.hear kept item).live = n.live ++ n.fresh item := by
  unfold live fresh deaf
  cases listens : n.listening with
  | false =>
    right
    simp [hear, listens]
  | true =>
    simpa [hear, listens] using n.feed.live_push kept item

/-- The reports of a loss stay on the feed until they are read. -/
theorem loss_hear {n : Node} (h : .loss ∈ n.live) (kept : Nat) (item : FeedItem) :
    .loss ∈ (n.hear kept item).live := by
  rcases n.live_hear kept item with loss | eq
  · exact loss
  · rw [eq]
    exact List.mem_append_left _ h

theorem outbound_receive (n : Node) (item : FeedItem) :
    (n.receive item).outbound = n.outbound := by
  unfold receive
  split
  · rfl
  · cases item <;> rfl

theorem live_nil_of_items {n : Node} (h : n.listening = true → n.feed.items = []) :
    n.live = [] := by
  unfold live
  split
  · next listens => rw [Feed.live, h listens, List.takeWhile_nil]
  · rfl

end Node

end GraphQLEngine
