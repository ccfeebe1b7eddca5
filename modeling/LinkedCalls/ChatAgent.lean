import LinkedCalls.Failure
import LinkedCalls.Text.Blank
import LinkedCalls.Text.Case

/-!
The chat agent of the demonstration: a table of replies. A prompt is looked up without the blanks
around it and in lower case; a prompt with no reply is repeated back.
-/
namespace LinkedCalls

structure Exchange where
  prompt : Value
  reply : Value

def Exchange.toValue (e : Exchange) : Value :=
  .record [("prompt", e.prompt), ("response", e.reply)]

structure ChatAgent where
  responses : Table Value

namespace ChatAgent

def poem : String :=
  "Here's a poem about coding:\n\n```\n" ++
  "In lines of code, we build our dreams,\n" ++
  "Functions flow like gentle streams.\n" ++
  "Objects dance in memory's space,\n" ++
  "Each bug we fix with gentle grace.\n\n" ++
  "Through loops and logic, day by day,\n" ++
  "We craft our worlds in our own way.\n" ++
  "In Python's embrace we find\n" ++
  "New patterns of the coding kind.\n```\n\n" ++
  "Would you like me to explain any part of the poem?"

def hello : String := "Hello! I am Transformer, your coding assistant. How can I help you today?"

def demo : ChatAgent := ⟨[(.text "write a poem", .text poem), (.text "hello", .text hello)]⟩

/-- how a prompt is spelled in the table -/
def normalized (prompt : String) : String := lower (strip prompt)

def echo (prompt : String) : String :=
  s!"I understood your request: \"{prompt}\"\n" ++
    "I'm a simple demo agent that only knows how to write poems and say hello."

def reply (a : ChatAgent) (prompt : String) : Value :=
  match Table.find? a.responses (.text (normalized prompt)) with
  | some v => if v.isNull then .text (echo prompt) else v
  | none => .text (echo prompt)

def respond (a : ChatAgent) (prompt : Value) : Except Failure Value :=
  match prompt with
  | .text s => .ok (a.reply s)
  | v => .error (.noMember v.kind "strip")

def samplePrompts (a : ChatAgent) : List Scalar := Table.keys a.responses

def ask (a : ChatAgent) (prompt : Value) (history : List Exchange) :
    Except Failure (Value × List Exchange) :=
  (a.respond prompt).map fun reply => (reply, history ++ [⟨prompt, reply⟩])

/-- prompts one after another, up to the first that fails -/
def converse (a : ChatAgent) : List Value → List Exchange → Except Failure (List Exchange)
  | [], history => .ok history
  | prompt :: prompts, history =>
    match a.ask prompt history with
    | .ok (_, history) => converse a prompts history
    | .error failure => .error failure

end ChatAgent

end LinkedCalls
