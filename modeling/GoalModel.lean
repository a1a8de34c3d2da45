import GoalModel.Files.Disk
import GoalModel.Main
import GoalModel.Model.Edit
import GoalModel.Proofs.Golog.Exclusion
import GoalModel.Proofs.Linking.ReadBack
import GoalModel.Proofs.Files.Translation
import GoalModel.Proofs.Golog.Rendering
import GoalModel.Proofs.Golog.Amounts
import GoalModel.Proofs.Golog.Conditions
import GoalModel.Proofs.Golog.Closure
import GoalModel.Proofs.Golog.QualityCalls
import GoalModel.Proofs.Golog.QualityValues
import GoalModel.Proofs.Golog.GeneratedNames
import GoalModel.Proofs.Golog.Definitions
import GoalModel.Proofs.Golog.Reports
import GoalModel.Proofs.Golog.Successors
import GoalModel.Proofs.Golog.References
import GoalModel.Proofs.Schema.Written
import GoalModel.Proofs.Document.NormalForm
import GoalModel.Proofs.Golog.ActionVocabulary
import GoalModel.Proofs.Golog.MergedActors
import GoalModel.Proofs.Model.Invariants
import GoalModel.Proofs.Golog.Guards
import GoalModel.Proofs.Schema.LocalRules
import GoalModel.Proofs.Golog.Lines
import GoalModel.Proofs.Golog.Progress
import GoalModel.Proofs.Golog.Placeholders
import GoalModel.Proofs.Golog.BoundVariables
import GoalModel.Proofs.Golog.PreviousValues
import GoalModel.Proofs.Linking.Formulas
import GoalModel.Proofs.Linking.Unresolved
import GoalModel.Proofs.Golog.Sensing
import GoalModel.Proofs.Files.DefaultOutput
