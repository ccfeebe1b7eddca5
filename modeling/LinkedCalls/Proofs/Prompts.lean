import LinkedCalls.ChatAgent
import LinkedCalls.Proofs.LowerCase
import LinkedCalls.Proofs.Schema
import LinkedCalls.Proofs.Table

/-!
Which of its sample prompts the chat agent answers. A prompt is brought into normal form before it
is looked up, and the table is not: so the agent gives the reply of the table, to all spellings of a
prompt alike, exactly where the table spells the prompt in normal form. To the other prompts in the
table it gives their reply under no spelling.
-/
namespace LinkedCalls

/-- the texts are the same but for the case of letters and the blanks around them -/
def SpelledAlike (s t : String) : Prop := lower (strip s) = lower (strip t)

instance (s t : String) : Decidable (SpelledAlike s t) := inferInstanceAs (Decidable (_ = _))

namespace ChatAgent

theorem strip_normalized (s : String) : strip (normalized s) = normalized s := by
  have hbare : Bare isBlank (stripChars s.toList) := bare_stripWhere isBlank s.toList
  have hlowered : stripChars (lowerFrom [] (stripChars s.toList)) = _ :=
    (hbare.lowerFrom []).stripWhere_eq
  simp only [strip, normalized, lower, String.toList_ofList, hlowered]

theorem normalized_normalized (s : String) : normalized (normalized s) = normalized s := by
  rw [normalized, strip_normalized, normalized, lower_lower]

theorem spelledAlike_normalized (s : String) : SpelledAlike (normalized s) s :=
  normalized_normalized s

/-- a table with replies to these prompts, no two of which are spelled alike -/
structure Advertises (a : ChatAgent) (prompts : List String) : Prop where
  listed : a.samplePrompts = prompts.map .text
  replies : ∀ e ∈ a.responses, e.2 ≠ .null
  apart : prompts.Pairwise fun s t => ¬SpelledAlike s t

section Reply

variable {a : ChatAgent} {prompts : List String}

theorem Advertises.mem (h : a.Advertises prompts) {e : Scalar × Value} (he : e ∈ a.responses)
    {k : String} (hk : e.1 = .text k) : k ∈ prompts := by
  have hmem : e.1 ∈ a.samplePrompts := List.mem_map_of_mem he
  rw [h.listed, hk] at hmem
  obtain ⟨s, hs, heq⟩ := List.mem_map.1 hmem
  exact Scalar.text.inj heq ▸ hs

theorem Advertises.eq_of_alike (h : a.Advertises prompts) {s t : String} (hs : s ∈ prompts)
    (ht : t ∈ prompts) (halike : SpelledAlike s t) : s = t := by
  have hnodup : (prompts.map normalized).Nodup := List.pairwise_map.2 h.apart
  exact List.inj_on_of_nodup_map hnodup hs ht halike

theorem Advertises.find? (h : a.Advertises prompts) {k : String} {v : Value}
    (hk : (.text k, v) ∈ a.responses) : Table.find? a.responses (.text k) = some v := by
  have hnodup : prompts.Nodup :=
    h.apart.imp fun hapart heq => hapart (congrArg (fun s => lower (strip s)) heq)
  exact ((Table.distinct_iff_nodup h.listed).2 hnodup).find?_of_mem hk

theorem Advertises.find?_normalized (h : a.Advertises prompts) {k : String} {v : Value}
    (hk : (.text k, v) ∈ a.responses) (hne : normalized k ≠ k) :
    Table.find? a.responses (.text (normalized k)) = none := by
  refine Table.find?_eq_none_iff.2 fun e he heq => hne ?_
  exact h.eq_of_alike (h.mem he heq) (h.mem hk rfl) (spelledAlike_normalized k)

theorem reply_of_some {p : String} {v : Value}
    (h : Table.find? a.responses (.text (normalized p)) = some v) (hv : v ≠ .null) :
    a.reply p = v := by
  rw [reply, h]
  exact if_neg (mt Value.isNull_iff.1 hv)

theorem reply_of_none {p : String}
    (h : Table.find? a.responses (.text (normalized p)) = none) :
    a.reply p = .text (echo p) := by
  rw [reply, h]

/-- Of a table with replies to prompts that are not spelled alike: whatever was asked before, a
prompt of the table, in any spelling, is answered by the reply of the table if the table has it in
normal form, and repeated back if not; either way the history goes on with this one exchange. -/
theorem answers_normal_spellings (h : a.Advertises prompts) {k : String} {v : Value}
    (hk : (.text k, v) ∈ a.responses) {p : String} (hp : SpelledAlike p k)
    (history : List Exchange) :
    ∃ reply, a.ask (.text p) history = .ok (reply, history ++ [⟨.text p, reply⟩]) ∧
      (normalized k = k → reply = v) ∧ (normalized k ≠ k → reply = .text (echo p)) := by
  have hsame : normalized p = normalized k := hp
  refine ⟨a.reply p, rfl, fun hnormal => ?_, fun hne => ?_⟩
  · refine reply_of_some ?_ (h.replies _ hk)
    rw [hsame, hnormal]
    exact h.find? hk
  · refine reply_of_none ?_
    rw [hsame]
    exact h.find?_normalized hk hne

end Reply

end ChatAgent

namespace Demo

/-- one prompt in normal form, its last letter being the final sigma, and one in capitals -/
def polyglot : ChatAgent :=
  ⟨[(.text "οδός", .text "street"), (.text "PING", .text "pong")]⟩

/-- the first prompt is known in capitals, the second one not at all -/
theorem polyglot_answers :
    polyglot.Advertises ["οδός", "PING"] ∧ SpelledAlike "\tΟΔΌΣ " "οδός" ∧
      SpelledAlike "ping" "PING" ∧
      polyglot.ask (.text "\tΟΔΌΣ ") [] =
        .ok (.text "street", [⟨.text "\tΟΔΌΣ ", .text "street"⟩]) ∧
      polyglot.reply "ping" = .text (ChatAgent.echo "ping") := by
  have hadvertises : polyglot.Advertises ["οδός", "PING"] :=
    ⟨rfl, by simp [polyglot], by decide +kernel⟩
  have hstreet : SpelledAlike "\tΟΔΌΣ " "οδός" := by decide +kernel
  have hping : SpelledAlike "ping" "PING" := by decide +kernel
  obtain ⟨reply, hask, hreply, -⟩ := ChatAgent.answers_normal_spellings hadvertises
    (v := .text "street") List.mem_cons_self hstreet []
  rw [hreply (by decide +kernel)] at hask
  obtain ⟨reply', hask', -, hreply'⟩ := ChatAgent.answers_normal_spellings hadvertises
    (v := .text "pong") (List.mem_cons_of_mem _ List.mem_cons_self) hping []
  have hsame : polyglot.reply "ping" = reply' := (Prod.mk.inj (Except.ok.inj hask')).1
  exact ⟨hadvertises, hstreet, hping, hask, hsame.trans (hreply' (by decide +kernel))⟩

def shouted : ChatAgent := ⟨[(.text "PING", .text "pong")]⟩

/-- a prompt that the table has in capitals is not even answered as it stands there -/
theorem ping_unanswered :
    shouted.Advertises ["PING"] ∧ (.text "PING", .text "pong") ∈ shouted.responses ∧
      ¬∃ history, shouted.ask (.text "PING") [] = .ok (.text "pong", history) := by
  refine ⟨⟨rfl, by simp [shouted], by decide +kernel⟩, List.mem_cons_self, ?_⟩
  rintro ⟨history, hask⟩
  have hunknown : Table.find? shouted.responses (.text (ChatAgent.normalized "PING")) = none := by
    decide +kernel
  have hreply : shouted.reply "PING" = .text "pong" := (Prod.mk.inj (Except.ok.inj hask)).1
  rw [ChatAgent.reply_of_none hunknown] at hreply
  exact absurd (Scalar.text.inj (Value.scalar.inj hreply)) (by decide +kernel)

end Demo

end LinkedCalls
