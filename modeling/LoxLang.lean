import LoxLang.Tree.Occurrence
import LoxLang.Tree.Renaming
import LoxLang.Resolution.Passes
import LoxLang.Directory
import LoxLang.Main
import LoxLang.Proofs.ProgramGrammar
import LoxLang.Proofs.LexicalScoping
import LoxLang.Proofs.Restoration
import LoxLang.Proofs.LineNumbers
import LoxLang.Proofs.CursorBounds
import LoxLang.Proofs.SpacedTokens
import LoxLang.Proofs.Pieces
import LoxLang.Proofs.Rejection
import LoxLang.Proofs.Names
import LoxLang.Proofs.PrintedValues
import LoxLang.Proofs.Returns
import LoxLang.Proofs.Stages
import LoxLang.Proofs.Resumption
import LoxLang.Proofs.FreshNumbers
import LoxLang.Proofs.LocalRenaming
import LoxLang.Proofs.Concatenation
import LoxLang.Proofs.FirstError
import LoxLang.Proofs.Dropped
import LoxLang.Proofs.LexicalDistance
import LoxLang.Proofs.StaticRules
import LoxLang.Proofs.SuperLookup
import LoxLang.Proofs.Properties
import LoxLang.Proofs.Construction
import LoxLang.Proofs.ScopeAddressing
import LoxLang.Proofs.SecondPass
import LoxLang.Proofs.CallDepth
import LoxLang.Proofs.ForLoops
import LoxLang.Proofs.NumeralTexts
import LoxLang.Proofs.PrintedTrees
