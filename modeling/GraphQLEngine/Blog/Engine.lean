import GraphQLEngine.Blog.Store
import GraphQLEngine.Engine.Build
import GraphQLEngine.Execution.Argument

/-!
# The engine of the blog

Posts and their authors, of whom only an admin sees the email, and chats: a message that is sent is
published to the subscribers of its chat.
-/

namespace GraphQLEngine.Blog

/-! ## Schema -/

def named (name : String) : TypeRef := .named name

def required (name : String) : TypeRef := .nonNull (.named name)

/-- A list that is never null, of items that never are. -/
def requiredList (name : String) : TypeRef := .nonNull (.list (.nonNull (.named name)))

def argument (name : String) (type : TypeRef) : ArgumentDefinition := ⟨name, type, none⟩

def schemaSpec : SchemaSpec where
  declarations := [
    .object "Query" [
      (FieldDefinition.of "posts" (requiredList "Post")).withArgument
        (argument "limit" (named "Int")),
      (FieldDefinition.of "post" (named "Post")).withArgument (argument "id" (required "ID")),
      (FieldDefinition.of "user" (named "User")).withArgument (argument "id" (required "ID")),
      (FieldDefinition.of "me" (named "User")).withAccess .authenticated],
    .object "Post" [
      FieldDefinition.of "id" (required "ID"),
      FieldDefinition.of "title" (required "String"),
      FieldDefinition.of "author" (required "User")],
    .object "User" [
      FieldDefinition.of "id" (required "ID"),
      FieldDefinition.of "name" (required "String"),
      (FieldDefinition.of "email" (named "String")).withAccess (.role "admin"),
      FieldDefinition.of "posts" (requiredList "Post")],
    .object "Message" [
      FieldDefinition.of "chatId" (required "ID"),
      FieldDefinition.of "text" (required "String"),
      FieldDefinition.of "sender" (named "User")],
    .object "Mutation" [
      ((FieldDefinition.of "createPost" (required "Post")).withArgument
        (argument "title" (required "String"))).withArgument
        ⟨"authorId", required "ID", some (.str "u1")⟩,
      (((FieldDefinition.of "sendMessage" (required "Message")).withArgument
        (argument "chatId" (required "ID"))).withArgument
        (argument "text" (required "String"))).withArgument
        (argument "senderId" (named "ID"))],
    .object "Subscription" [
      (FieldDefinition.of "messageAdded" (required "Message")).withArgument
        (argument "chatId" (required "ID"))]]
  queryRoot := none
  mutationRoot := none
  subscriptionRoot := none

/-! ## Loaders -/

def userLoader : Nat := 0

def postLoader : Nat := 1

/-- Fetch by texts; keys without an answer are left out. -/
def fetchTexts (answer? : Store → String → Option Json) (keys : List LoadKey) (s : Store) :
    Fetched × Store :=
  let answers := keys.filterMap fun
    | .text key => (answer? s key).map fun v => (LoadKey.text key, Except.ok v)
    | .integer _ => none
  (.ok answers, s)

def loaders : List (Nat × Loader Store) := [
  (userLoader, ⟨"users", 0, fetchTexts Store.user?⟩),
  (postLoader, ⟨"posts_by_author", 0, fetchTexts fun s key => some (.arr (s.postsBy key))⟩)]

/-! ## Resolvers -/

/-- The topic of a chat. -/
def chatTopic (chatId : String) : String := "chat:" ++ chatId

/-- A resolver that runs at once. -/
def resolver (run : FieldCall → Scope Store → Except FieldError (FieldValue Store) × Scope Store) :
    Resolver Store :=
  ⟨fun _ => 0, run⟩

/-- A resolver that only reads. -/
def reader (read : FieldCall → Store → Except FieldError (FieldValue Store)) : Resolver Store :=
  resolver fun call s => (read call s.store, s)

def posts : Resolver Store := reader fun call store => do
  let limit ← call.optionalSize "limit"
  pure (.value (.arr (store.posts.take (limit.getD store.posts.length))))

def post : Resolver Store := reader fun call store => do
  let id ← call.requiredText "id"
  pure (.value ((store.post? id).getD .null))

def user : Resolver Store := reader fun call _ => do
  let id ← call.requiredText "id"
  pure (.load userLoader (.text id))

def me : Resolver Store := reader fun call _ =>
  match call.identity.subject with
  | some subject => .ok (.load userLoader (.text subject))
  | none => .ok (.value .null)

def author : Resolver Store := reader fun call _ => do
  let id ← call.parentText "authorId"
  pure (.load userLoader (.text id))

def postsOfUser : Resolver Store := reader fun call _ => do
  let id ← call.parentText "id"
  pure (.load postLoader (.text id))

def sender : Resolver Store := reader fun call _ =>
  match call.parent.member "senderId" with
  | .str id => .ok (.load userLoader (.text id))
  | _ => .ok (.value .null)

def createPost : Resolver Store := resolver fun call s =>
  let arguments : Except FieldError (String × String) := do
    let title ← call.requiredText "title"
    let authorId ← call.requiredText "authorId"
    pure (title, authorId)
  match arguments with
  | .error e => (.error e, s)
  | .ok (title, authorId) =>
    let (written, store) := s.store.write title authorId
    (.ok (.value written), { s with store })

/-- The message of a call. -/
def message (call : FieldCall) : Except FieldError (String × Json) := do
  let chatId ← call.requiredText "chatId"
  let text ← call.requiredText "text"
  let senderId ← call.optionalText "senderId"
  pure (chatId, .obj [
    ("chatId", .str chatId),
    ("text", .str text),
    ("senderId", Json.ofOption .str senderId)])

def sendMessage : Resolver Store := resolver fun call s =>
  match message call with
  | .error e => (.error e, s)
  | .ok (chatId, sent) => (.ok (.value sent), s.publish (chatTopic chatId) sent)

def messageAdded : SubscriptionResolver Store where
  delay _ := 0
  subscribe call s :=
    ((call.requiredText "chatId").map fun chatId => ⟨chatTopic chatId, fun _ => true⟩, s)
  resolveEvent event := .ok event
  policy := none

def properties (typeName : String) (fields : List String) :
    List (FieldKey × Handler (Resolver Store) (SubscriptionResolver Store)) :=
  fields.map fun field => (⟨typeName, field⟩, .field .property)

/-- The resolver of each field. -/
def dispatch : DispatchTable (Resolver Store) (SubscriptionResolver Store) where
  entries :=
    [(⟨"Query", "posts"⟩, .field posts),
      (⟨"Query", "post"⟩, .field post),
      (⟨"Query", "user"⟩, .field user),
      (⟨"Query", "me"⟩, .field me)] ++
    properties "Post" ["id", "title"] ++
    [(⟨"Post", "author"⟩, .field author)] ++
    properties "User" ["id", "name", "email"] ++
    [(⟨"User", "posts"⟩, .field postsOfUser)] ++
    properties "Message" ["chatId", "text"] ++
    [(⟨"Message", "sender"⟩, .field sender),
      (⟨"Mutation", "createPost"⟩, .field createPost),
      (⟨"Mutation", "sendMessage"⟩, .field sendMessage),
      (⟨"Subscription", "messageAdded"⟩, .subscription messageAdded)]

def engine (settings : Settings) : Except BuildError (Engine Store) :=
  Engine.ofSpec schemaSpec (fun _ => .ok dispatch) loaders settings

end GraphQLEngine.Blog
