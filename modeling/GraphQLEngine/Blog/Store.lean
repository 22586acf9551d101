import GraphQLEngine.Json.Basic

/-!
# The store of the blog

Users by id, which never change, and posts in the order in which they were written.
-/

namespace GraphQLEngine.Blog

structure Store where
  users : OrderedMap Json
  posts : List Json
deriving Inhabited

namespace Store

def user (id name email : String) : String × Json :=
  (id, .obj [("id", .str id), ("name", .str name), ("email", .str email)])

def post (id title authorId : String) : Json :=
  .obj [("id", .str id), ("title", .str title), ("authorId", .str authorId)]

/-- The blog as it is at the start. -/
def seeded : Store where
  users := [
    user "u1" "Alice" "alice@example.com",
    user "u2" "Bob" "bob@example.com",
    user "u3" "Carol" "carol@example.com"]
  posts := [
    post "p1" "Batching in practice" "u1",
    post "p2" "Waves and levels" "u2",
    post "p3" "Why nulls bubble" "u1",
    post "p4" "Subscriptions without tears" "u3",
    post "p5" "Serial mutations" "u2"]

def user? (s : Store) (id : String) : Option Json := s.users.lookup id

/-- Whether a member of a value is a given text. -/
def hasText (v : Json) (key text : String) : Bool := (v.member key).string? = some text

def post? (s : Store) (id : String) : Option Json := s.posts.find? fun p => hasText p "id" id

def postsBy (s : Store) (authorId : String) : List Json :=
  s.posts.filter fun p => hasText p "authorId" authorId

/-- Write a post; it is numbered after those that are there. -/
def write (s : Store) (title authorId : String) : Json × Store :=
  let written := post ("p" ++ toString (s.posts.length + 1)) title authorId
  (written, { s with posts := s.posts ++ [written] })

end Store

end GraphQLEngine.Blog
