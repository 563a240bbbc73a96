import SpriteMachine.Proofs.References

/-!
Merging warnings: messages that are counted in groups and then merged are counted as if they had been given in a row.
-/

namespace SpriteMachine.Warnings

/-- The messages, in the order in which they were first given. -/
def messages (w : Warnings) : List String :=
  w.counts.map Prod.fst

def total (w : Warnings) : Nat :=
  (w.counts.map Prod.snd).sum

section Bump

variable (message : String) (a b : Nat) (l : List (String × Nat))

theorem map_fst_bump : (bump message a l).map Prod.fst =
    if message ∈ l.map Prod.fst then l.map Prod.fst else l.map Prod.fst ++ [message] := by
  induction l with
  | nil => simp [bump]
  | cons e es ih =>
    by_cases h : e.1 = message
    · simp [bump,h]
    · simp only [bump,if_neg h,List.map_cons,ih,List.mem_cons,Ne.symm h,false_or]
      split <;> rfl

theorem sum_bump : ((bump message a l).map Prod.snd).sum = (l.map Prod.snd).sum + a := by
  induction l with
  | nil => simp [bump]
  | cons e es ih => by_cases h : e.1 = message <;> simp [bump,h,ih] <;> omega

theorem bump_bump : bump message b (bump message a l) = bump message (a + b) l := by
  induction l with
  | nil => simp [bump]
  | cons e es ih => by_cases h : e.1 = message <;> simp [bump,h,ih,Nat.add_assoc]

variable {message a l}

theorem mem_bump {message' : String} : message' ∈ (bump message a l).map Prod.fst ↔
    message' = message ∨ message' ∈ l.map Prod.fst := by
  rw [map_fst_bump]
  split
  next h => exact ⟨.inr,fun h' => h'.elim (· ▸ h) id⟩
  · rw [List.mem_append,List.mem_singleton,or_comm]

/-- A message that has its place already can be counted before any other or after it. -/
theorem bump_comm (hmem : message ∈ l.map Prod.fst) (message' : String) :
    bump message' b (bump message a l) = bump message a (bump message' b l) := by
  induction l with
  | nil => cases hmem
  | cons e es ih =>
    obtain ⟨first,n⟩ := e
    by_cases h : first = message <;> by_cases h' : first = message'
    · simp [bump,← h,← h',Nat.add_right_comm]
    · simp [bump,← h,h']
    · subst h'
      simp [bump,h]
    · have hes : message ∈ es.map Prod.fst := by simpa [Ne.symm h] using hmem
      simp [bump,h,h',ih hes]

end Bump

theorem extend_cons (w : Warnings) (e : String × Nat) (es : List (String × Nat)) :
    w.extend ⟨e :: es⟩ = extend ⟨bump e.1 e.2 w.counts⟩ ⟨es⟩ :=
  rfl

theorem add_extend {w : Warnings} {message : String} (hmem : message ∈ w.messages) (other : Warnings) :
    (w.add message).extend other = (w.extend other).add message := by
  obtain ⟨es⟩ := other
  induction es generalizing w with
  | nil => rfl
  | cons e es ih =>
    rw [extend_cons,extend_cons,← ih (mem_bump.2 (.inr hmem))]
    exact congrArg (fun counts => extend ⟨counts⟩ ⟨es⟩) (bump_comm e.2 hmem e.1)

/-- The last message of a group can as well be given after the merge. -/
theorem extend_add (w other : Warnings) (message : String) : w.extend (other.add message) = (w.extend other).add message := by
  obtain ⟨es⟩ := other
  induction es generalizing w with
  | nil => rfl
  | cons e es ih =>
    rw [extend_cons]
    by_cases h : e.1 = message
    · subst h
      -- The message has its place once the entry is merged.
      rw [← add_extend (mem_bump.2 (.inl rfl))]
      simp only [add,bump,if_true,bump_bump]
      rfl
    · rw [← ih]
      simp only [add,bump,if_neg h]
      rfl

theorem extend_addAll (w other : Warnings) (messages : List String) :
    w.extend (other.addAll messages) = (w.extend other).addAll messages := by
  induction messages generalizing other with
  | nil => rfl
  | cons message messages ih => exact (ih _).trans (congrArg (addAll · messages) (extend_add w other message))

theorem addAll_append (w : Warnings) (messages messages' : List String) :
    w.addAll (messages ++ messages') = (w.addAll messages).addAll messages' :=
  List.foldl_append

theorem foldl_extend (w : Warnings) (groups : List (List String)) :
    groups.foldl (fun w group => w.extend (addAll {} group)) w = w.addAll groups.flatten := by
  induction groups generalizing w with
  | nil => rfl
  | cons group groups ih =>
    rw [List.foldl_cons,ih,extend_addAll,List.flatten_cons,addAll_append]
    rfl

theorem messages_addAll (given : List String) : (addAll {} given).messages = given.eraseDups := by
  induction given using List.reverseRecOn with
  | nil => rfl
  | append_singleton given message ih =>
    unfold messages at ih
    rw [addAll_append,List.eraseDups_append]
    refine (map_fst_bump message 1 _).trans ?_
    rw [ih]
    by_cases h : message ∈ given <;> simp [h,List.removeAll,List.eraseDups_cons]

theorem count_addAll (w : Warnings) (given : List String) (message : String) :
    (w.addAll given).count message = w.count message + given.count message := by
  induction given generalizing w with
  | nil => rfl
  | cons first given ih =>
    refine (ih _).trans ?_
    rw [count_add,List.count_cons]
    simp only [beq_iff_eq,eq_comm (a := message)]
    omega

theorem total_addAll (w : Warnings) (given : List String) : (w.addAll given).total = w.total + given.length := by
  induction given generalizing w with
  | nil => rfl
  | cons message given ih =>
    refine (ih _).trans ?_
    rw [total,add,sum_bump,List.length_cons,total]
    omega

/-- Groups of messages that are counted apart and then merged one after another give the warnings that all their messages
in a row give: the distinct messages in the order in which they were first seen, each with the number of times it was given.
The numbers add up to that of all messages. -/
theorem merge_groups (groups : List (List String)) :
    groups.foldl (fun w group => w.extend (addAll {} group)) {} = addAll {} groups.flatten ∧
    (addAll {} groups.flatten).messages = groups.flatten.eraseDups ∧
    (∀ message, (addAll {} groups.flatten).count message = groups.flatten.count message) ∧
    (addAll {} groups.flatten).total = groups.flatten.length := by
  refine ⟨foldl_extend {} groups,messages_addAll _,fun message => ?_,?_⟩
  · rw [count_addAll]
    exact Nat.zero_add _
  · rw [total_addAll]
    exact Nat.zero_add _

end SpriteMachine.Warnings
