import Scriptlet.Proofs.Grammar.Exactness
import Scriptlet.Proofs.Grammar.Mirror

namespace Scriptlet

namespace Grammar

open Outcome Episode Cursor

theorem Derives.sequel : ∀ {program : Program} {ts : List Token}, Derives (.declarations program) ts →
    ∀ {r : List Token} {c : Cursor} {n : Nat}, c.At (ts ++ r) → ¬Begins [.elseWord] r →
    Ensures (declarations n false c) fun out d => ∃ stmts more c' m, out = stmts ++ more ∧
      stmts.map Stmt.unnumbered = program.map Stmt.unnumbered ∧ c'.At r ∧ c'.endMark = c.endMark ∧
      c'.depth = c.depth ∧ n ≤ m + ts.length ∧ declarations m false c' = some (more, d)
  | _, _, .done, r, c, n, hc, _ => fun out d run => ⟨[], out, c, n, rfl, rfl, hc, rfl, rfl, Nat.le_refl n, run⟩
  | _, _, @Derives.more stmt _ ts us first rest, r, c, n, hc, apart => by
    obtain _ | n := n
    · exact .none
    rw [List.append_assoc] at hc
    have begins := first.begins.resolve_left (by simp)
    have goes : ¬(c.atEnd || false && c.sees .rightBrace) = true := by
      obtain ⟨t, rest, hrest, -⟩ := begins.append (us ++ r)
      simp [hc.1, hrest]
    have follows : ¬Begins [.elseWord] (us ++ r) := by
      obtain rfl | next := rest.declarations_begin stmt
      · exact apart
      · exact (next.append r).apart (by simp)
    rw [declarations_succ, if_neg goes]
    intro out d run
    obtain ⟨stmt?, e, here, run⟩ := andThen_eq_some.1 run
    obtain ⟨later, d, there, run⟩ := andThen_eq_some.1 run
    cases run
    obtain ⟨same, he⟩ := first.completes.kept hc follows n _ _ here
    obtain ⟨stmts, more, c', m, rfl, same', hc', endMark, depth, enough, run⟩ := rest.sequel he apart _ _ there
    have positive : 0 < ts.length := by
      obtain ⟨t, rest, rfl, -⟩ := begins
      exact Nat.zero_lt_succ _
    refine ⟨stmt?.toList ++ stmts, more, c', m, by simp, by simp [same, same'], hc', ?_, ?_, ?_, run⟩
    · exact endMark.trans ((Trail.endMark.statements n).declaration c _ _ here)
    · exact depth.trans ((Trail.depth.statements n).declaration c _ _ here)
    · rw [List.length_append]
      omega

namespace Episode

variable (f : Token → Token)

mutual

theorem faults_map : ∀ episode : Episode, (episode.map f).faults = episode.faults.map (Located.map f)
  | .fault error hushed => by cases hushed <;> rfl
  | .declaration history kept => by rw [map, faults, faults, faultsIn_mapIn history]

theorem faultsIn_mapIn : ∀ history : List Episode, faultsIn (mapIn f history) = (faultsIn history).map (Located.map f)
  | [] => rfl
  | episode :: rest => by rw [mapIn, faultsIn, faultsIn, faults_map episode, faultsIn_mapIn rest, List.map_append]

end

end Episode

theorem read_mirror {f : Token → Token} (view : View f) {tokens tokens' : List Token} {nextId nextId' : UseId}
    (rest : (ofTokens tokens' nextId').rest = (ofTokens tokens nextId).rest.map f)
    (endMark : (ofTokens tokens' nextId').endMark = f (ofTokens tokens nextId).endMark) :
    (read tokens' nextId').program.map Stmt.unnumbered = (read tokens nextId).program.map (Stmt.view f) ∧
      (read tokens' nextId').faults = (read tokens nextId).faults.map (Located.map f) := by
  obtain ⟨program, d, run, hread⟩ := read_run tokens nextId
  obtain ⟨program', d', run', hread'⟩ := read_run tokens' nextId'
  -- the two readings have budgets of their own, and both go on as they do with the larger one
  obtain ⟨ample, e, wide, views, new, hd, he⟩ :=
    @declarations_mirror _ view _ _ (Nat.le_max_left _ (budget tokens'.length)) _ (ofTokens tokens' nextId') _ _ run
      ⟨by simp [rest], rfl, endMark, rfl, rfl, [], rfl, rfl⟩
  obtain ⟨ample', e', wide', views', new', hd', he'⟩ :=
    @declarations_mirror _ View.id _ _ (Nat.le_max_right (budget tokens.length) _) _ (ofTokens tokens' nextId') _ _ run'
      ⟨by simp, rfl, rfl, rfl, rfl, [], rfl, rfl⟩
  cases wide.symm.trans wide'
  have none {tokens : List Token} {nextId : UseId} : (ofTokens tokens nextId).history = [] := rfl
  simp only [none, List.append_nil, Episode.map_id_eq_id, List.map_id] at hd he hd' he'
  rw [hread, hread', Reading.faults, Reading.faults]
  refine ⟨views'.symm.trans views, ?_⟩
  rw [hd, hd', ← he', he, ← List.map_reverse, ← Episode.mapIn_eq_map, faultsIn_mapIn]

section Append

variable {body more : List Token} {last last' : Token} (inside : ∀ t ∈ body, t.kind ≠ .endMark)
  (ends : last.kind = .endMark) (inside' : ∀ t ∈ more, t.kind ≠ .endMark) (ends' : last'.kind = .endMark)

include inside ends

theorem derives_of_faults_eq_nil {nextId : UseId} (none : (read (body ++ [last]) nextId).faults = []) :
    Derives (.declarations (read (body ++ [last]) nextId).program) body := by
  obtain ⟨program, c, run, hread, done, settled⟩ := read_end (body ++ [last]) nextId
  rw [Reading.faults, hread, faultsIn_reverse_eq_nil] at none
  obtain ⟨-, ts, hts, derived⟩ := (Soundness.statements _).declarations _ _ _ _ run (settled none)
  rw [ofTokens_append inside ends, done, List.append_nil] at hts
  cases hts
  rw [hread]
  exact derived

include inside' ends'

theorem read_append {f : Token → Token} (view : View f) {nextId : UseId}
    (none : (read (body ++ [last]) nextId).faults = []) (apart : ¬Begins [.elseWord] more) (nextId' nextId'' : UseId) :
    ∃ stmts stmts', (read (body ++ (more ++ [last']).map f) nextId'').program = stmts ++ stmts' ∧
      stmts.map Stmt.unnumbered = (read (body ++ [last]) nextId).program.map Stmt.unnumbered ∧
      stmts'.map Stmt.unnumbered = (read (more ++ [last']) nextId').program.map (Stmt.view f) ∧
      (read (body ++ (more ++ [last']).map f) nextId'').faults =
        (read (more ++ [last']) nextId').faults.map (Located.map f) := by
  have derived := derives_of_faults_eq_nil inside ends none
  have insideBoth : ∀ t ∈ body ++ more.map f, t.kind ≠ .endMark := by
    refine List.forall_mem_append.2 ⟨inside, List.forall_mem_map.2 fun t mem => ?_⟩
    rw [view.kind]
    exact inside' t mem
  have endsBoth : (f last').kind = .endMark := (view.kind last').trans ends'
  rw [List.map_append, List.map_singleton, ← List.append_assoc]
  obtain ⟨out, d, run, hread⟩ := read_run (body ++ more.map f ++ [f last']) nextId''
  obtain ⟨program, e, alone, hread'⟩ := read_run (more ++ [last']) nextId'
  rw [ofTokens_append insideBoth endsBoth] at run
  rw [ofTokens_append inside' ends'] at alone
  have apart' : ¬Begins [.elseWord] (more.map f) := by
    rintro ⟨t, rest, hr, hk⟩
    obtain ⟨t, rest, rfl, rfl, rfl⟩ := List.map_eq_cons_iff.1 hr
    exact apart ⟨t, rest, rfl, by rwa [view.kind] at hk⟩
  obtain ⟨stmts, stmts', c', m, rfl, same, hc', endMark, depth, enough, run⟩ :=
    derived.sequel ⟨rfl, rfl, rfl⟩ apart' _ _ run
  have le : budget (more ++ [last']).length ≤ m := by
    simp only [budget, List.length_append, List.length_map, List.length_singleton] at enough ⊢
    omega
  -- the reader stands where it would start with the second program, but for what it has read
  have start : Mirror f [] [] c'.history
      { previous := more.headD last', rest := more, endMark := last', depth := 0, recovering := false,
        nextId := nextId', history := [] } { c' with previous := f (more.headD last') } :=
    ⟨by simp [hc'.1], rfl, endMark, depth, hc'.2.1, [], rfl, rfl⟩
  obtain ⟨program', d', run', view', new, he, hd⟩ := declarations_mirror view le alone start
  cases run.symm.trans run'
  refine ⟨stmts, stmts', by rw [hread], same, by rw [hread', view'], ?_⟩
  rw [Reading.faults, Reading.faults, hread, hread', hd, he, List.append_nil, List.reverse_append, faultsIn_append,
    faultsIn_reverse_eq_nil.2 (faultsIn_of_flawlessIn hc'.2.2), List.nil_append, ← List.map_reverse,
    ← Episode.mapIn_eq_map, faultsIn_mapIn]

/-- A program without faults shields what is behind it: the second program is read as if it stood alone, however many
faults it has, unless an `else` at its front belongs to the first. -/
theorem read_shielded {nextId : UseId} (none : (read (body ++ [last]) nextId).faults = [])
    (apart : ∀ t ∈ more.head?, t.kind ≠ .elseWord) (nextId' nextId'' : UseId) :
    Program.unnumbered (read (body ++ more ++ [last']) nextId'').program =
        Program.unnumbered (read (body ++ [last]) nextId).program ++
          Program.unnumbered (read (more ++ [last']) nextId').program ∧
      (read (body ++ more ++ [last']) nextId'').faults = (read (more ++ [last']) nextId').faults := by
  have follows : ¬Begins [.elseWord] more := by
    rintro ⟨t, rest, rfl, hk⟩
    exact apart t rfl (List.mem_singleton.1 hk)
  obtain ⟨stmts, stmts', program, same, same', faults⟩ :=
    read_append inside ends inside' ends' View.id none follows nextId' nextId''
  have whole : body ++ (more ++ [last']).map id = body ++ more ++ [last'] := by simp
  rw [whole] at program faults
  refine ⟨?_, faults.trans (List.map_id _)⟩
  simp only [Program.unnumbered, program, List.map_append, same, same']

end Append

def openIf : List Token :=
  [⟨.ifWord, "if", none, ⟨0, 1, 1⟩⟩, ⟨.leftParen, "(", none, ⟨3, 1, 4⟩⟩, ⟨.nilWord, "nil", none, ⟨4, 1, 5⟩⟩,
    ⟨.rightParen, ")", none, ⟨7, 1, 8⟩⟩, ⟨.printWord, "print", none, ⟨9, 1, 10⟩⟩, ⟨.nilWord, "nil", none, ⟨15, 1, 16⟩⟩,
    ⟨.semicolon, ";", none, ⟨18, 1, 19⟩⟩]

def strayParen : List Token :=
  [⟨.rightParen, ")", none, ⟨20, 2, 1⟩⟩, ⟨.printWord, "print", none, ⟨22, 2, 3⟩⟩, ⟨.semicolon, ";", none, ⟨28, 2, 9⟩⟩,
    ⟨.printWord, "print", none, ⟨30, 2, 11⟩⟩, ⟨.nilWord, "nil", none, ⟨36, 2, 17⟩⟩, ⟨.semicolon, ";", none, ⟨39, 2, 20⟩⟩]

theorem read_shielded_strayParen :
    Program.unnumbered (read (openIf ++ strayParen ++ [⟨.endMark, "", none, ⟨40, 2, 21⟩⟩]) 0).program =
        [.ifThen (.constant .nil) (.print (.constant .nil)), .print (.constant .nil)] ∧
      (read (openIf ++ strayParen ++ [⟨.endMark, "", none, ⟨40, 2, 21⟩⟩]) 0).faults =
        [⟨⟨.rightParen, ")", none, ⟨20, 2, 1⟩⟩, .missingExpression⟩,
          ⟨⟨.semicolon, ";", none, ⟨28, 2, 9⟩⟩, .missingExpression⟩] := by
  have flawless : (read (openIf ++ [⟨.endMark, "", none, ⟨19, 1, 20⟩⟩]) 0).faults = [] := by
    rw [read, read?_eq]
    rfl
  have shielded := @read_shielded openIf strayParen ⟨.endMark, "", none, ⟨19, 1, 20⟩⟩ ⟨.endMark, "", none, ⟨40, 2, 21⟩⟩
    (by decide) rfl (by decide) rfl 0 flawless (by decide) 0 0
  refine ⟨shielded.1.trans ?_, shielded.2.trans ?_⟩
  · rw [read, read, read?_eq, read?_eq]
    rfl
  · rw [read, read?_eq]
    rfl

end Grammar

end Scriptlet
