import LinkedCalls.Program.Reading

/-!
The demonstration program: sets a greeting, shows it through a link and asks for a poem.
-/
namespace LinkedCalls

def setContextId : String := "setContext"
def showDialogId : String := "showDialog"
def startChatId : String := "startChat"

namespace HelloWorld

def greeting : String := "Hello from Transformer!"
def key : String := "message"
def name : String := "hello_world"

def program (owner delimiter : String) : Program where
  name := name
  description := some "A simple hello world demo program"
  calls := [
    { id := Call.makeId owner delimiter setContextId
      operation := setContextId
      description := "Sets a welcome message in context"
      params :=
        [{ name := "key", value := .text key }, { name := "value", value := .text greeting }] },
    { id := Call.makeId owner delimiter showDialogId
      operation := showDialogId
      description := "Shows the welcome message in a dialog"
      params := [{ name := "text", link := some (.contextKey key) },
        { name := "level", value := .text "Info" }] },
    { id := Call.makeId owner delimiter startChatId
      operation := startChatId
      description := "Opens chat and requests a poem" }]

/-- the program with its calls checked one by one; only their ids depend on what is given -/
def checked (owner delimiter : String) : Except Report Program := do
  let p := program owner delimiter
  let _ ← p.calls.mapM fun c =>
    Reading.report Reading.callModel ((Reading.ofText .refused c.id).within (.field "call_id"))
  return p

end HelloWorld

end LinkedCalls
