/-
This file defines programs for records: what the utility does that reads a text record by
record and field by field.

A program is a list of rules. A rule says for which records it holds and what is done then.
Before the first and behind the last record there are rules of their own.
-/

import PomLens.BuildTool.Script.Raw

namespace PomLens.Script.Records

/-! ### Expressions -/

inductive Operation
  | plus
  | minus
  | times
  | divided
  | remainder
  | power
  deriving DecidableEq, Repr

inductive Relation
  | less
  | atMost
  | equal
  | unequal
  | greater
  | atLeast
  deriving DecidableEq, Repr

inductive Expr
  | number (value : Float)
  | text (value : Raw)
  /-- A regular expression, which alone asks whether the record matches it. -/
  | pattern (text : Raw)
  | named (name : String)
  | field (index : Expr)
  | item (array : String) (keys : List Expr)
  | assign (target value : Expr)
  /-- Assigns what comes of the target's value and another one. -/
  | update (operation : Operation) (target value : Expr)
  /-- Adds to the target, and has its new or its old value. -/
  | step (amount : Float) (isNew : Bool) (target : Expr)
  | calculate (operation : Operation) (left right : Expr)
  | opposite (inner : Expr)
  | asNumber (inner : Expr)
  | negated (inner : Expr)
  | both (left right : Expr)
  | either (left right : Expr)
  | compare (relation : Relation) (left right : Expr)
  | fits (text pattern : Expr)
  | choice (test yes no : Expr)
  | joined (left right : Expr)
  | contains (keys : List Expr) (array : String)
  /-- One in parentheses, which no assignment can change. -/
  | grouped (inner : Expr)
  | call (name : String) (arguments : List Expr)
  /-- Reads a record: the next one, or one from a file or a command. -/
  | readRecord (target : Option Expr) (source : Option (Bool × Expr))
  deriving Inhabited, Repr

/-! ### Statements -/

/-- Where something is written to. -/
inductive Target
  | file (append : Bool) (name : Expr)
  | command (words : Expr)
  deriving Repr

inductive Statement
  | nothing
  | expression (inner : Expr)
  | print (arguments : List Expr) (target : Option Target)
  | printFormat (arguments : List Expr) (target : Option Target)
  | block (body : List Statement)
  | condition (test : Expr) (yes no : Statement)
  | loop (test : Expr) (body : Statement)
  /-- The test comes behind each round. -/
  | rounds (body : Statement) (test : Expr)
  | counted (start : Statement) (test : Option Expr) (next body : Statement)
  | each (name array : String) (body : Statement)
  | delete (array : String) (keys : List Expr)
  | next
  | exit (status : Option Expr)
  | leave
  | goOn
  deriving Inhabited, Repr

/-- For which records a rule holds. -/
inductive Selector
  | start
  | finish
  | every
  | those (test : Expr)
  | between (first last : Expr)
  deriving Repr

structure Rule where
  selector : Selector
  body : Statement
  deriving Repr

end PomLens.Script.Records
