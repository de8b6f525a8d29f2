import Essl.Diagnostic

/-!
# Token feeds and streams

A feed is everything a source of tokens will deliver: each token with the errors met on the way
to it, and the errors met after the last one. A stream reads a feed with one-token lookahead and
pushback and keeps the errors of what it has looked at until they are taken.
-/

namespace Essl

/-- A token and the errors met on the way to it. -/
structure Delivery where
  errors : List FrontError
  token : Token

/-- All that a source of tokens delivers. -/
structure Feed where
  deliveries : List Delivery
  /-- Errors met between the last token and the end. -/
  trailing : List FrontError

namespace Feed

/-- The feed of a source that has nothing to deliver. -/
def empty : Feed := ⟨[], []⟩

/-- A feed without errors. -/
def ofTokens (tokens : List Token) : Feed := ⟨tokens.map (⟨[], ·⟩), []⟩

/-- The tokens without the errors. -/
def tokens (feed : Feed) : List Token := feed.deliveries.map Delivery.token

/-- Every error, in the order of the text. -/
def errors (feed : Feed) : List FrontError :=
  feed.deliveries.flatMap Delivery.errors ++ feed.trailing

@[simp] theorem tokens_ofTokens (tokens : List Token) : (ofTokens tokens).tokens = tokens := by
  simp [ofTokens, Feed.tokens, Function.comp_def]

@[simp] theorem errors_ofTokens (tokens : List Token) : (ofTokens tokens).errors = [] := by
  simp [ofTokens, Feed.errors]

end Feed

/-- A feed that is being read. -/
structure TokenStream where
  feed : Feed
  /-- Errors of the part looked at that nobody has taken yet. -/
  noticed : List FrontError

namespace TokenStream

/-- A stream of which nothing has been looked at. -/
def ofFeed (feed : Feed) : TokenStream := ⟨feed, []⟩

/-- Removes the next token. -/
def next (stream : TokenStream) : Option Token × TokenStream :=
  match stream.feed.deliveries with
  | [] => (none, ⟨.empty, stream.noticed ++ stream.feed.trailing⟩)
  | delivery :: rest =>
    (some delivery.token, ⟨⟨rest, stream.feed.trailing⟩, stream.noticed ++ delivery.errors⟩)

/-- Looks at the next token. -/
def peek (stream : TokenStream) : Option Token × TokenStream :=
  match stream.feed.deliveries with
  | [] => (none, ⟨.empty, stream.noticed ++ stream.feed.trailing⟩)
  | delivery :: rest =>
    (some delivery.token,
      ⟨⟨⟨[], delivery.token⟩ :: rest, stream.feed.trailing⟩, stream.noticed ++ delivery.errors⟩)

/-- Puts a token in front. -/
def unconsume (token : Token) (stream : TokenStream) : TokenStream :=
  ⟨⟨⟨[], token⟩ :: stream.feed.deliveries, stream.feed.trailing⟩, stream.noticed⟩

/-- Looks whether anything is left. -/
def eof (stream : TokenStream) : Bool × TokenStream :=
  (stream.peek.1.isNone, stream.peek.2)

/-- Removes the errors noticed so far. -/
def takeErrors (stream : TokenStream) : List FrontError × TokenStream :=
  (stream.noticed, ⟨stream.feed, []⟩)

/-- Removes everything that is left. -/
def rest (stream : TokenStream) : List Token × TokenStream :=
  (stream.feed.tokens, ⟨.empty, stream.noticed ++ stream.feed.errors⟩)

end TokenStream

end Essl
