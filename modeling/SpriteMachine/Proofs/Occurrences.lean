import SpriteMachine.Proofs.Origins
import SpriteMachine.Proofs.Questions

/-!
Where a question is put up. The builtin for it is called in the code of blocks that ask, and nowhere else.
-/

namespace SpriteMachine

/-- A directive that puts up a question. -/
def Directive.Asks (d : Directive) : Prop :=
  ∃ o ws id, d = .op o ws ∧ Instr.ofOperands o ws = .builtin id ∧ Palette.builtin? id = some (.sensing .ask)

variable {o : Opcode} {id : UInt32} {s : Script} {pc next : Nat}

theorem Instr.ofOperands_builtin {ws : List UInt32} (h : ofOperands o ws = .builtin id) : o = .callBuiltin := by
  cases o <;> first | rfl | cases h

namespace Directive

variable {d : Directive}

theorem Asks.isQuery (h : d.Asks) : d.isQuery = false := by
  obtain ⟨o,ws,id,rfl,hi,hb⟩ := h
  rw [Directive.isQuery,hi,Instr.isQuery,hb]
  rfl

theorem not_asks_of_isAdmissible {waits : Bool} {callee? : Option String} {named? : Option Reference}
    (h : d.isAdmissible waits callee? named? = true) : ¬ d.Asks := by
  rintro ⟨o,ws,id,rfl,hi,-⟩
  rw [Instr.ofOperands_builtin hi] at h
  cases h

theorem asks_call {id : UInt32} (h : (Directive.op .callBuiltin [id]).Asks) : Palette.builtin? id = some (.sensing .ask) := by
  obtain ⟨o,ws,id',heq,hi,hb⟩ := h
  cases heq
  cases hi
  exact hb

end Directive

namespace Palette

theorem opcode_of_asks {e : Entry} (he : e ∈ entries.toList) (hb : e.builtin = some (.sensing .ask)) :
    e.opcode = "sensing_askandwait" := by
  have hall : entries.toList.all (fun e => e.builtin ≠ some (.sensing .ask) || e.opcode = "sensing_askandwait") = true := by
    decide +kernel
  simpa [hb] using List.all_eq_true.1 hall e he

theorem helper?_ne_ask (opcode : String) : helper? opcode ≠ some (.sensing .ask) := by
  unfold helper?
  split <;> simp

end Palette

def AsksInBlocks (params : List String) (ds : List Directive) : Prop :=
  ∀ (pre : List Directive) (d : Directive) (post : List Directive), ds = pre ++ d :: post → d.Asks →
    ∃ b left mid rest right, b.opcode = "sensing_askandwait" ∧ pre = left ++ mid ∧ post = rest ++ right ∧
      (expand params b).statement = mid ++ d :: rest

namespace AsksInBlocks

variable {params : List String} {ds ds' : List Directive}

theorem of_none (h : ∀ d ∈ ds, ¬ d.Asks) : AsksInBlocks params ds := by
  rintro pre d post rfl hd
  exact absurd hd (h d (by simp))

theorem of_isQuery (h : IsQuery ds) : AsksInBlocks params ds := by
  refine of_none fun d hd hasks => ?_
  have hquery := h d hd
  rw [hasks.isQuery] at hquery
  cases hquery

theorem append (h : AsksInBlocks params ds) (h' : AsksInBlocks params ds') : AsksInBlocks params (ds ++ ds') := by
  intro pre d post heq hd
  rcases append_eq_split heq with ⟨rest,hhere,rfl⟩ | ⟨rest,rfl,hthere⟩
  · obtain ⟨b,left,mid,inner,right,hb,rfl,rfl,hcode⟩ := h pre d rest hhere hd
    exact ⟨b,left,mid,inner,right ++ ds',hb,rfl,by simp,hcode⟩
  · obtain ⟨b,left,mid,inner,right,hb,rfl,rfl,hcode⟩ := h' rest d post hthere hd
    exact ⟨b,ds ++ left,mid,inner,right,hb,by simp,rfl,hcode⟩

theorem composes (params : List String) : Composes (AsksInBlocks params) := ⟨append,of_isQuery⟩

theorem of_call {id : UInt32} {b : Option Builtin} (hb : Palette.builtin? id = b) (hne : b ≠ some (.sensing .ask)) :
    AsksInBlocks params [.op .callBuiltin [id]] := by
  refine of_none fun d hd hasks => ?_
  cases List.mem_singleton.1 hd
  exact hne (hb.symm.trans (Directive.asks_call hasks))

theorem buildsUp (params : List String) : BuildsUp params (AsksInBlocks params) where
  toComposes := composes params
  block {b e id} hfind hcode hslots := by
    by_cases hopcode : b.opcode = "sensing_askandwait"
    · intro pre d post heq _
      exact ⟨b,[],pre,post,[],hopcode,rfl,by simp,heq⟩
    · obtain ⟨he,hentry,hbuiltin⟩ := Palette.find?_eq_some hfind
      have hsteps := List.all_eq_true.1 (Palette.entries_disclose he ⟨b,params⟩ hentry.symm)
      rw [hcode]
      refine (composes params).bracket ((composes params).flatMap fun st hst => ?_)
      refine (composes params).stepCode (isQuery_expandSlots params b.slots) hslots (fun _ => of_call hbuiltin fun hasks => ?_)
        (fun opcode b id hb hbuiltin => of_call hbuiltin ?_) (fun d hd => of_none fun d' hd' hasks => ?_) (hsteps st hst)
      · exact hopcode (hentry.symm.trans (Palette.opcode_of_asks he hasks))
      · rw [← hb]
        exact Palette.helper?_ne_ask opcode
      · cases List.mem_singleton.1 hd'
        exact Directive.not_asks_of_isAdmissible hd hasks

end AsksInBlocks

theorem Emission.asks_written {first : Emitter} {done rest : List Directive} {d : Directive}
    (h : Emission s first (done ++ d :: rest)) (hi : (first.run done).written s d = some (.builtin id))
    (hb : Palette.builtin? id = some (.sensing .ask)) : d.Asks := by
  obtain ⟨t,saves,hc⟩ := h.course
  obtain ⟨u,hu⟩ := h.passes_next hc
  cases d with
  | op o ws => exact ⟨o,ws,id,rfl,Option.some.inj hi,hb⟩
  | bound o ws =>
    obtain ⟨_,-,hall⟩ := Tally.handle?_of_bound s hu
    have hhandle := hall (first.run done).scope.handle
    rw [Option.some.inj hi] at hhandle
    cases hhandle
  | jump o j => obtain ⟨-,⟨rfl,-⟩ | ⟨rfl | rfl,-⟩⟩ := Tally.step_jump.1 hu <;> cases hi
  | resume o j => obtain ⟨-,rfl | rfl,-⟩ := Tally.step_resume.1 hu <;> cases hi
  | _ => cases hi

theorem Compile.asks_of_fetch {symbols after : Symbols} {name : String} {params : List String} {blocks : List Block}
    {id : Nat} (hs : Compile.script symbols name params blocks o id = .ok (s,after)) (ho : Compile.Ends o)
    (hsmall : s.code.size < 2 ^ 32) {word : UInt32} (hpc : s.Aligned pc) (hfetch : s.fetch pc = .ok (.builtin word,next))
    (hb : Palette.builtin? word = some (.sensing .ask)) : s.Asks pc := by
  have hemission := (Compile.emission hs ho hsmall).1
  obtain ⟨done,d,rest,heq,⟨-,-,hvisual⟩ | ⟨hbefore,hnext,hwritten⟩⟩ := hemission.writes hpc hfetch
  · cases hvisual
  · have hle : ((Emitter.start symbols name).run done).pc ≤ pc := by
      rw [hbefore]
      exact (Emitter.before_grows _ d).size
    rw [heq] at hemission
    have hasks := hemission.asks_written hwritten hb
    rcases append_eq_split heq with ⟨rest',hhere,-⟩ | ⟨pre,-,hend⟩
    · obtain ⟨b,left,mid,inner,right,hopcode,rfl,rfl,hcode⟩ :=
        (AsksInBlocks.buildsUp params).expandStack blocks done d rest' hhere hasks
      have hblock : s.Contains params b ((Emitter.start symbols name).run left).pc
          ((Emitter.start symbols name).run (left ++ (expand params b).statement)).pc :=
        ⟨symbols,name,blocks,o,id,after,left,right,ho,hs,by rw [hhere,hcode]; simp,rfl,rfl⟩
      have hstart := Portion.pc_le_run (Emitter.start symbols name) left mid
      have hstop := Portion.pc_le_run (Emitter.start symbols name) (left ++ mid ++ [d]) inner
      have hlt := Script.lt_of_fetch hfetch
      rw [Emitter.run_concat,← hnext,List.append_assoc,List.append_assoc,List.singleton_append,← hcode] at hstop
      refine ⟨params,b,_,_,hblock,hopcode,Nat.lt_of_le_of_ne (Nat.le_trans hstart hle) ?_,
        Nat.lt_of_lt_of_le hlt hstop⟩
      -- The block itself begins with another instruction.
      rintro rfl
      obtain ⟨asking,hasking,hsaves,-⟩ := hblock.asking hsmall hopcode
      have hsave := hasking.saves
      rw [hsaves,hfetch] at hsave
      cases hsave
    · cases pre with
      | nil =>
        cases hend
        obtain ⟨_,_,_,hop,hi,-⟩ := hasks
        cases hop
        rw [Instr.ofOperands_builtin hi] at ho
        rcases ho with ho | ho <;> cases ho
      | cons x pre => simp at hend

theorem Turn.Sound.asks {project : Project} {p : Program} {c : Settings} {o : Option Nat} {t : Turn}
    (hcompile : compile project = .ok p) (hsmall : p.Small) (h : t.Sound p c o s pc)
    (hsited : Sited (t.active.frame :: t.active.calls) s pc) (hfetch : s.fetch pc = .ok (.builtin id,next))
    (hb : Palette.builtin? id = some (.sensing .ask)) : s.Asks pc := by
  obtain ⟨x,hx,hs⟩ := h.mem_scripts
  obtain ⟨symbols,o,ho,before,name,params,blocks,after,id',hscript,-⟩ := compile_script hcompile hx hs
  have hcode := h.small hsmall
  exact Compile.asks_of_fetch hscript ho hcode (hsited.aligned ⟨_,_,(Compile.emission hscript ho hcode).1⟩) hfetch hb

end SpriteMachine
